import TypeHierarchy.Proofs.ForeignTypes

/-!
# The forms of a bound

A bound can be asked for of two types, of a set, or of all pairs from two sets.  Whatever the form, no
type of the answer is strictly below another one (`Level`).  This holds of every reduction to an
antichain that comes to an end (`antichain_level`), and so of every answer that ends with one, for any
sets at all.  The bound of two types may have skipped the reduction, but is level all the same, so that
the other two forms, which reduce it once more, leave it as it is (`isCrossBound_pair`).
-/

namespace TypeHierarchy

/-! ## Loops that have answered -/

namespace Traced

variable {α : Type} {l kept : List α} {p : α → Traced Bool}

theorem outcome_of_anyM (none : (l.anyM p).outcome = .ok false) :
    ∀ x ∈ l, (p x).outcome = .ok false := by
  induction l with
  | nil => exact fun x mem => absurd mem List.not_mem_nil
  | cons a l ih =>
    rw [List.anyM, outcome_bind] at none
    obtain ⟨answer, first, rest⟩ := bind_eq_ok_iff.mp none
    cases answer with
    | true => cases rest
    | false => exact List.forall_mem_cons.mpr ⟨first, ih rest⟩

theorem mem_of_filterAuxM {acc : List α} (done : (l.filterAuxM p acc).outcome = .ok kept) :
    ∀ x ∈ kept, x ∈ acc ∨ x ∈ l ∧ (p x).outcome = .ok true := by
  induction l generalizing acc with
  | nil =>
    cases done
    exact fun x mem => .inl mem
  | cons a l ih =>
    rw [List.filterAuxM, outcome_bind] at done
    obtain ⟨answer, first, rest⟩ := bind_eq_ok_iff.mp done
    intro x mem
    rcases ih rest x mem with earlier | ⟨mem_l, yes⟩
    · cases answer with
      | false => exact .inl earlier
      | true =>
        rcases List.mem_cons.mp earlier with rfl | earlier
        · exact .inr ⟨List.mem_cons_self, first⟩
        · exact .inl earlier
    · exact .inr ⟨List.mem_cons_of_mem a mem_l, yes⟩

theorem mem_of_filterM (done : (l.filterM p).outcome = .ok kept) :
    ∀ x ∈ kept, x ∈ l ∧ (p x).outcome = .ok true := by
  rw [List.filterM, outcome_bind] at done
  obtain ⟨collected, loop, reversed⟩ := bind_eq_ok_iff.mp done
  cases reversed
  intro x mem
  exact (mem_of_filterAuxM loop x (List.mem_reverse.mp mem)).resolve_left List.not_mem_nil

theorem Yields.outcome_eq {x y : Traced HandleSet} {q : Handle → Prop} (first : x.Yields q)
    (second : y.Yields q) : x.outcome = y.outcome := by
  obtain ⟨s, hx, mem⟩ := first
  obtain ⟨t, hy, mem'⟩ := second
  rw [hx, hy, SortedSet.ext fun h => (mem h).trans (mem' h).symm]

end Traced

theorem SortedSet.toList_ofList_pair {α : Type} {cmp : α → α → Ordering} [Std.TransCmp cmp]
    [Std.LawfulEqCmp cmp] {a b : α} (lt : cmp a b = .lt) :
    (ofList [a, b] : SortedSet α cmp).toList = [a, b] := by
  refine eq_of_mem_iff (ofList [a, b]).increasing ?_ fun x => mem_ofList
  simpa using lt

namespace Environment

/-- No type of the set is strictly below another one. -/
def Level (env : Environment) (types : HandleSet) : Prop :=
  ∀ a ∈ types, ∀ b ∈ types, ¬ (env.Accepts a b ∧ ¬ env.Accepts b a)

variable {env : Environment} {bound : Bound} {a b h other next : Handle}
  {candidates lefts rights rest : List Handle} {types running result : HandleSet}

/-! ## Level sets -/

theorem level_singleton (h : Handle) : env.Level (.singleton h) := by
  rintro a ha b hb ⟨yes, no⟩
  cases SortedSet.mem_singleton.mp ha
  cases SortedSet.mem_singleton.mp hb
  exact no yes

theorem level_empty : env.Level ∅ := fun a ha => absurd ha (SortedSet.not_mem_empty a)

theorem not_strictly_of_outcome (no : (env.strictlyBelow a b).outcome = .ok false) :
    ¬ (env.Accepts a b ∧ ¬ env.Accepts b a) := by
  rintro ⟨ab, nba⟩
  unfold strictlyBelow at no
  by_cases same : a = b
  · subst same
    exact nba ab
  · rw [if_neg same, Traced.outcome_bind_of_ok ab, if_pos rfl, Traced.outcome_bind] at no
    obtain ⟨answer, asked, negated⟩ := bind_eq_ok_iff.mp no
    cases answer with
    | true => exact nba asked
    | false => cases negated

/-- A reduction that comes to an end has compared what it keeps with all candidates. -/
theorem antichain_level (done : (env.antichain bound candidates).outcome = .ok result) :
    env.Level result := by
  rw [antichain, Traced.outcome_bind] at done
  obtain ⟨kept, filtered, made⟩ := bind_eq_ok_iff.mp done
  cases made
  have compared (h : Handle) (mem : h ∈ kept) : h ∈ candidates ∧ ∀ other ∈ candidates,
      (env.outranks bound other h).outcome = .ok false := by
    obtain ⟨mem_h, yes⟩ := Traced.mem_of_filterM filtered h mem
    rw [Traced.outcome_bind] at yes
    obtain ⟨answer, asked, negated⟩ := bind_eq_ok_iff.mp yes
    cases answer with
    | true => cases negated
    | false => exact ⟨mem_h, Traced.outcome_of_anyM asked⟩
  intro a ha b hb
  obtain ⟨mem_a, unbeaten_a⟩ := compared a (SortedSet.mem_ofList.mp ha)
  obtain ⟨mem_b, unbeaten_b⟩ := compared b (SortedSet.mem_ofList.mp hb)
  -- A least bound would have dropped the upper of the two, a greatest bound the lower.
  cases bound with
  | least => exact not_strictly_of_outcome (unbeaten_b a mem_a)
  | greatest => exact not_strictly_of_outcome (unbeaten_a b mem_b)

theorem crossBound_level (done : (env.crossBound bound lefts rights).outcome = .ok result) :
    env.Level result := by
  rw [crossBound, Traced.outcome_bind] at done
  obtain ⟨bounds, -, reduced⟩ := bind_eq_ok_iff.mp done
  exact antichain_level reduced

theorem extendBound_level (level : env.Level running)
    (done : (env.extendBound bound running rest).outcome = .ok result) : env.Level result := by
  induction rest generalizing running with
  | nil =>
    cases done
    exact level
  | cons next rest ih =>
    rw [extendBound, Traced.outcome_bind] at done
    obtain ⟨reduced, step, done⟩ := bind_eq_ok_iff.mp done
    have level' := crossBound_level step
    split at done
    · cases done
      exact level'
    · exact ih level' done

theorem setBound_level (done : (env.setBound bound (.finite types)).outcome = .ok result) :
    env.Level result := by
  cases order : types.toList with
  | nil =>
    simp only [setBound, order] at done
    cases done
    exact level_empty
  | cons first rest =>
    rw [setBound_eq_of_order order] at done
    exact extendBound_level (level_singleton first) done

theorem pairwiseBound_level {lefts rights : HandleSet} {answer : TypeSet}
    (done : (env.pairwiseBound bound (.finite lefts) (.finite rights)).outcome = .ok answer) :
    ∃ bounds, answer = .finite bounds ∧ env.Level bounds := by
  unfold pairwiseBound at done
  split at done
  · cases done
    exact ⟨∅, rfl, level_empty⟩
  · dsimp only at done
    rw [Traced.outcome_bind] at done
    obtain ⟨bounds, reduced, made⟩ := bind_eq_ok_iff.mp done
    cases made
    exact ⟨bounds, rfl, crossBound_level reduced⟩

/-! ## One pair in three forms -/

theorem not_outranks_self (bound : Bound) (h : Handle) : ¬ env.Outranks bound h h := by
  cases bound with
  | least => exact fun strict => strict.2 strict.1
  | greatest => exact fun strict => strict.2 strict.1

theorem IsBound.not_outranks (is_bound : env.IsBound bound a b h)
    (is_bound' : env.IsBound bound a b other) : ¬ env.Outranks bound other h := by
  by_cases ab : env.Below a b
  · rw [isBound_of_below ab] at is_bound is_bound'
    rw [is_bound, is_bound']
    exact not_outranks_self bound _
  by_cases ba : env.Below b a
  · rw [isBound_of_above ab ba] at is_bound is_bound'
    rw [is_bound, is_bound']
    exact not_outranks_self bound _
  · rw [isBound_of_unrelated ab ba] at is_bound is_bound'
    exact is_bound.2 other is_bound'.1

/-- Reducing the bound of two types once more leaves it as it is. -/
theorem isCrossBound_pair : env.IsCrossBound bound [a] [b] = env.IsBound bound a b := by
  funext h
  refine propext ⟨?_, fun is_bound => ?_⟩
  · rintro ⟨⟨left, hl, right, hr, is_bound⟩, -⟩
    cases List.mem_singleton.mp hl
    cases List.mem_singleton.mp hr
    exact is_bound
  · refine ⟨⟨a, List.mem_singleton_self a, b, List.mem_singleton_self b, is_bound⟩, ?_⟩
    rintro other ⟨left, hl, right, hr, is_bound'⟩
    cases List.mem_singleton.mp hl
    cases List.mem_singleton.mp hr
    exact is_bound.not_outranks is_bound'

theorem outcome_crossBound_pair (closed : env.Closed) (own_a : env.owns a = true)
    (own_b : env.owns b = true) :
    (env.crossBound bound [a] [b]).outcome = (env.pairBound bound a b).outcome := by
  have crossed : (env.crossBound bound [a] [b]).Yields (env.IsCrossBound bound [a] [b]) :=
    crossBound_yields closed (List.forall_mem_singleton.mpr own_a)
      (List.forall_mem_singleton.mpr own_b)
  rw [isCrossBound_pair] at crossed
  exact crossed.outcome_eq (pairBound_yields closed own_a own_b)

theorem outcome_extendBound_one (bound : Bound) (running : HandleSet) (next : Handle) :
    (env.extendBound bound running [next]).outcome =
      (env.crossBound bound running.toList [next]).outcome := by
  rw [extendBound, Traced.outcome_bind]
  cases (env.crossBound bound running.toList [next]).outcome with
  | error violation => rfl
  | ok reduced =>
    rw [ok_bind]
    split <;> rfl

theorem outcome_pairBound_self (closed : env.Closed) (own : env.owns a = true) :
    (env.pairBound bound a a).outcome = .ok (.singleton a) := by
  have yields : (env.pairBound bound a a).Yields (env.IsBound bound a a) :=
    pairBound_yields closed own own
  have picked : bound.pick a a = a := by cases bound <;> rfl
  rw [isBound_of_below (Below.refl a), picked] at yields
  exact yields.outcome_eq (y := pure (.singleton a)) (Traced.yields_singleton rfl)

theorem outcome_setBound_pair (closed : env.Closed) (own_a : env.owns a = true)
    (own_b : env.owns b = true) (order : (compare a b).isLE = true) :
    (env.setBound bound (.ofList [a, b])).outcome = (env.pairBound bound a b).outcome := by
  rcases Ordering.isLE_iff_eq_lt_or_eq_eq.mp order with lt | eq
  · have listed : env.setBound bound (.ofList [a, b]) =
        env.extendBound bound (.singleton a) [b] :=
      setBound_eq_of_order (SortedSet.toList_ofList_pair lt)
    rw [listed, outcome_extendBound_one, SortedSet.toList_singleton,
      outcome_crossBound_pair closed own_a own_b]
  · cases Std.LawfulEqCmp.eq_of_compare eq
    have single : TypeSet.ofList [a, a] = .singleton a :=
      congrArg TypeSet.finite (SortedSet.ext fun h => by simp)
    rw [single, outcome_pairBound_self closed own_a]
    rfl

theorem outcome_pairwiseBound_pair (closed : env.Closed) (own_a : env.owns a = true)
    (own_b : env.owns b = true) :
    (env.pairwiseBound bound (.singleton a) (.singleton b)).outcome =
      (env.pairBound bound a b).outcome.map TypeSet.finite := by
  have opened : (env.pairwiseBound bound (.singleton a) (.singleton b)).outcome =
      (env.crossBound bound [a] [b]).outcome >>= fun bounds => .ok (.finite bounds) :=
    Traced.outcome_bind _ _
  rw [opened, outcome_crossBound_pair closed own_a own_b]
  rfl

theorem ofList_swap (a b : Handle) : TypeSet.ofList [b, a] = .ofList [a, b] :=
  congrArg TypeSet.finite (SortedSet.ext fun h => by simp [or_comm])

/-- Two types have a bound, which is the pairwise bound of the one and the other alone.  It is also the
bound of the set of both if the two are taken in handle order.  Sets of own types have bounds in the
other two forms as well, and an answer is level in each of the forms. -/
theorem bound_forms_agree (reachable : env.Reachable) (bound : Bound) :
    (∀ a b, env.owns a = true → env.owns b = true →
      ∃ bounds, (env.pairBound bound a b).outcome = .ok bounds ∧ env.Level bounds ∧
        (env.pairwiseBound bound (.singleton a) (.singleton b)).outcome = .ok (.finite bounds) ∧
        ((compare a b).isLE = true →
          (env.setBound bound (.ofList [a, b])).outcome = .ok bounds ∧
          (env.setBound bound (.ofList [b, a])).outcome = .ok bounds)) ∧
    (∀ types : HandleSet,
      ((∀ h ∈ types, env.owns h = true) →
        ∃ bounds, (env.setBound bound (.finite types)).outcome = .ok bounds) ∧
      ∀ bounds, (env.setBound bound (.finite types)).outcome = .ok bounds → env.Level bounds) ∧
    ∀ lefts rights : HandleSet,
      ((∀ h ∈ lefts, env.owns h = true) → (∀ h ∈ rights, env.owns h = true) →
        ∃ bounds, (env.pairwiseBound bound (.finite lefts) (.finite rights)).outcome =
          .ok (.finite bounds)) ∧
      ∀ answer, (env.pairwiseBound bound (.finite lefts) (.finite rights)).outcome = .ok answer →
        ∃ bounds, answer = .finite bounds ∧ env.Level bounds := by
  have closed := reachable.closed
  refine ⟨fun a b own_a own_b => ?_, fun types => ⟨fun own => ?_, fun _ => setBound_level⟩,
    fun lefts rights => ⟨fun own_lefts own_rights => ?_, fun _ => pairwiseBound_level⟩⟩
  · have yields : (env.pairBound bound a b).Yields (env.IsBound bound a b) :=
      pairBound_yields closed own_a own_b
    obtain ⟨bounds, done, -⟩ := yields
    have pairwise : (env.pairwiseBound bound (.singleton a) (.singleton b)).outcome =
        .ok (.finite bounds) := by
      rw [outcome_pairwiseBound_pair closed own_a own_b, done]
      rfl
    have level : env.Level bounds := by
      obtain ⟨_, same, level⟩ := pairwiseBound_level pairwise
      cases same
      exact level
    refine ⟨bounds, done, level, pairwise, fun order => ?_⟩
    have ordered := (outcome_setBound_pair closed own_a own_b order).trans done
    exact ⟨ordered, ofList_swap a b ▸ ordered⟩
  · have own_all : env.OwnsAll (.finite types) := own
    exact (exists_setBound_owned closed own_all bound).imp fun _ => And.left
  · exact (exists_pairwiseBound closed own_lefts own_rights).imp fun _ => And.left

/-- Both unions are kept in the bound of the two primitives, as each of them is below the other.  The
unions themselves have one bound in each order, and the bound of the set is the one in handle order. -/
theorem bound_forms_agree_mirroredUnions :
    (mirroredUnions.Accepts ⟨⟨0⟩, 8⟩ ⟨⟨0⟩, 9⟩ ∧ mirroredUnions.Accepts ⟨⟨0⟩, 9⟩ ⟨⟨0⟩, 8⟩) ∧
    ((mirroredUnions.pairBound .least ⟨⟨0⟩, 5⟩ ⟨⟨0⟩, 4⟩).outcome =
        .ok (.ofList [⟨⟨0⟩, 8⟩, ⟨⟨0⟩, 9⟩]) ∧
      mirroredUnions.Level (.ofList [⟨⟨0⟩, 8⟩, ⟨⟨0⟩, 9⟩]) ∧
      (mirroredUnions.pairwiseBound .least (.singleton ⟨⟨0⟩, 5⟩) (.singleton ⟨⟨0⟩, 4⟩)).outcome =
        .ok (.ofList [⟨⟨0⟩, 8⟩, ⟨⟨0⟩, 9⟩])) ∧
    ((mirroredUnions.pairBound .least ⟨⟨0⟩, 8⟩ ⟨⟨0⟩, 9⟩).outcome = .ok (.singleton ⟨⟨0⟩, 9⟩) ∧
      (mirroredUnions.pairBound .least ⟨⟨0⟩, 9⟩ ⟨⟨0⟩, 8⟩).outcome = .ok (.singleton ⟨⟨0⟩, 8⟩) ∧
      (mirroredUnions.setBound .least (.ofList [⟨⟨0⟩, 9⟩, ⟨⟨0⟩, 8⟩])).outcome =
        .ok (.singleton ⟨⟨0⟩, 9⟩)) ∧
    (∃ bounds, (mirroredUnions.setBound .least
        (.ofList [⟨⟨0⟩, 4⟩, ⟨⟨0⟩, 5⟩, ⟨⟨0⟩, 8⟩])).outcome = .ok bounds ∧
      mirroredUnions.Level bounds) ∧
    ∃ bounds, (mirroredUnions.pairwiseBound .least (.ofList [⟨⟨0⟩, 4⟩, ⟨⟨0⟩, 8⟩])
        (.ofList [⟨⟨0⟩, 5⟩, ⟨⟨0⟩, 9⟩])).outcome = .ok (.finite bounds) ∧
      mirroredUnions.Level bounds := by
  obtain ⟨pairs, sets, crosses⟩ := bound_forms_agree reachable_mirroredUnions .least
  have primitives : (mirroredUnions.pairBound .least ⟨⟨0⟩, 5⟩ ⟨⟨0⟩, 4⟩).outcome =
      .ok (.ofList [⟨⟨0⟩, 8⟩, ⟨⟨0⟩, 9⟩]) := eq_ok_of_toOption (by decide +kernel)
  have unions : (mirroredUnions.pairBound .least ⟨⟨0⟩, 8⟩ ⟨⟨0⟩, 9⟩).outcome =
      .ok (.singleton ⟨⟨0⟩, 9⟩) := eq_ok_of_toOption (by decide +kernel)
  obtain ⟨_, done, level, single, -⟩ := pairs ⟨⟨0⟩, 5⟩ ⟨⟨0⟩, 4⟩ rfl rfl
  cases primitives.symm.trans done
  obtain ⟨_, done', -, -, ordered⟩ := pairs ⟨⟨0⟩, 8⟩ ⟨⟨0⟩, 9⟩ rfl rfl
  cases unions.symm.trans done'
  obtain ⟨some_bound, set_level⟩ := sets (.ofList [⟨⟨0⟩, 4⟩, ⟨⟨0⟩, 5⟩, ⟨⟨0⟩, 8⟩])
  obtain ⟨some_pairwise, pairwise_level⟩ :=
    crosses (.ofList [⟨⟨0⟩, 4⟩, ⟨⟨0⟩, 8⟩]) (.ofList [⟨⟨0⟩, 5⟩, ⟨⟨0⟩, 9⟩])
  obtain ⟨bounds, set_done⟩ := some_bound (by decide +kernel)
  obtain ⟨crossed, pairwise_done⟩ := some_pairwise (by decide +kernel) (by decide +kernel)
  obtain ⟨_, same, crossed_level⟩ := pairwise_level _ pairwise_done
  cases same
  exact ⟨⟨eq_ok_of_toOption (by decide +kernel), eq_ok_of_toOption (by decide +kernel)⟩,
    ⟨primitives, level, single⟩,
    ⟨unions, eq_ok_of_toOption (by decide +kernel), (ordered (by decide)).2⟩,
    ⟨bounds, set_done, set_level bounds set_done⟩, crossed, pairwise_done, crossed_level⟩

end Environment

end TypeHierarchy
