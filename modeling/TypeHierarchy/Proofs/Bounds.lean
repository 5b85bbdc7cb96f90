import TypeHierarchy.Bounds.Family
import TypeHierarchy.Proofs.Antichain
import TypeHierarchy.Proofs.Collection

/-!
# What a bound consists of

`IsBound` says of two types which types are in their bound, and `IsCrossBound` says it of two lists.
The bounds always exist and consist of these types (`pairBound_yields`, `crossBound_yields`,
`exists_pairwiseBound`).  For the bound that is built up type by type, `extendBound_rule` and
`setBound_rule` reduce what holds of the whole to one step.
-/

namespace TypeHierarchy

/-- The bound of two types of which the first is below the second. -/
def Bound.pick : Bound → Handle → Handle → Handle
  | .least, _, upper => upper
  | .greatest, lower, _ => lower

namespace Environment

open scoped Classical

/-- The types among which the bound of two unrelated types is looked for. -/
def Candidate (env : Environment) : Bound → Handle → Handle → Handle → Prop
  | .least, a, b, h => env.Below a h ∧ env.Below b h
  | .greatest, a, b, h => env.IsUnion b ∧ env.Collected a b h

/-- The type belongs to the bound of the two types.  Where these are related the bound is one of
them, and otherwise it holds the best candidates. -/
def IsBound (env : Environment) (bound : Bound) (a b h : Handle) : Prop :=
  if env.Below a b then h = bound.pick a b
  else if env.Below b a then h = bound.pick b a
  else env.Best bound (env.Candidate bound a b) h

/-- The type is in the bound of some pair, and nothing in the bounds of all pairs outranks it. -/
def IsCrossBound (env : Environment) (bound : Bound) (lefts rights : List Handle) :
    Handle → Prop :=
  env.Best bound fun h => ∃ left ∈ lefts, ∃ right ∈ rights, env.IsBound bound left right h

variable {env : Environment} {a b h : Handle} {bound : Bound} {lefts rights : List Handle}

/-! ## Types of the environment -/

theorem Reduces.owns_root (reduces : env.Reduces a b) : env.owns b = true := by
  rcases reduces.root_shape with ⟨kind, shape⟩ | ⟨base, primitive, shape⟩
  · exact owns_of_shape shape
  · exact owns_of_shape shape

theorem Reduces.owns (reduces : env.Reduces a b) : env.owns a = true := by
  cases reduces with
  | constant shape | itself shape | subset shape | union shape => exact owns_of_shape shape

theorem Below.owns_upper (below : env.Below a b) (own : env.owns a = true) : env.owns b = true := by
  cases below with
  | refl => exact own
  | root reduces => exact reduces.owns_root
  | left _ hb | right _ _ hb => exact owns_of_shape hb

theorem Below.owns_lower (below : env.Below a b) (own : env.owns b = true) : env.owns a = true := by
  cases below with
  | refl => exact own
  | root reduces => exact reduces.owns
  | left ha | right ha => exact owns_of_shape ha

theorem Candidate.owns (closed : env.Closed) (own : env.owns a = true)
    (candidate : env.Candidate bound a b h) : env.owns h = true := by
  cases bound with
  | least => exact candidate.1.owns_upper own
  | greatest =>
    obtain ⟨-, ⟨u, -, step⟩, -⟩ := candidate
    exact step.owns closed

theorem owns_pick (own_a : env.owns a = true) (own_b : env.owns b = true) :
    env.owns (bound.pick a b) = true := by
  cases bound with
  | least => exact own_b
  | greatest => exact own_a

theorem isBound_of_below (ab : env.Below a b) : env.IsBound bound a b = (· = bound.pick a b) :=
  funext fun _ => if_pos ab

theorem isBound_of_above (nab : ¬ env.Below a b) (ba : env.Below b a) :
    env.IsBound bound a b = (· = bound.pick b a) := by
  funext h
  rw [IsBound, if_neg nab, if_pos ba]

theorem isBound_of_unrelated (nab : ¬ env.Below a b) (nba : ¬ env.Below b a) :
    env.IsBound bound a b = env.Best bound (env.Candidate bound a b) := by
  funext h
  rw [IsBound, if_neg nab, if_neg nba]

theorem IsBound.owns (closed : env.Closed) (own_a : env.owns a = true) (own_b : env.owns b = true)
    (is_bound : env.IsBound bound a b h) : env.owns h = true := by
  by_cases ab : env.Below a b
  · rw [isBound_of_below ab] at is_bound
    exact is_bound ▸ owns_pick own_a own_b
  by_cases ba : env.Below b a
  · rw [isBound_of_above ab ba] at is_bound
    exact is_bound ▸ owns_pick own_b own_a
  · rw [isBound_of_unrelated ab ba] at is_bound
    exact is_bound.1.owns closed own_a

/-! ## Two types -/

theorem isUnion_iff_of_shape {s : Shape} (hs : env.shape h = .ok s) :
    env.IsUnion h ↔ s.isUnion = true := by
  rw [Shape.isUnion_iff, IsUnion, hs]
  simp

/-- Related types have the one or the other as their bound; only unrelated ones take a search. -/
theorem shortcut_yields (closed : env.Closed) (own_a : env.owns a = true)
    (own_b : env.owns b = true) {search : Traced HandleSet}
    (unrelated : search.Yields (env.Best bound (env.Candidate bound a b))) :
    Traced.Yields (do
      if a = b then return .singleton a
      if ← env.isSubtype a b then return .singleton (bound.pick a b)
      if ← env.isSubtype b a then return .singleton (bound.pick b a)
      search) (env.IsBound bound a b) := by
  by_cases same : a = b
  · subst same
    rw [isBound_of_below (.refl a), if_pos rfl]
    apply Traced.yields_singleton
    cases bound <;> rfl
  rw [if_neg same]
  by_cases ab : env.Below a b
  · rw [isBound_of_below ab]
    apply Traced.yields_singleton
    rw [Traced.outcome_bind_of_ok (isSubtype_eq closed own_a own_b), decide_eq_true ab, if_pos rfl]
    rfl
  by_cases ba : env.Below b a
  · rw [isBound_of_above ab ba]
    apply Traced.yields_singleton
    rw [Traced.outcome_bind_of_ok (isSubtype_eq closed own_a own_b), decide_eq_false ab,
      if_neg Bool.false_ne_true, Traced.outcome_bind_of_ok (isSubtype_eq closed own_b own_a),
      decide_eq_true ba, if_pos rfl]
    rfl
  · rw [isBound_of_unrelated ab ba]
    apply unrelated.of_outcome
    rw [Traced.outcome_bind_of_ok (isSubtype_eq closed own_a own_b), decide_eq_false ab,
      if_neg Bool.false_ne_true, Traced.outcome_bind_of_ok (isSubtype_eq closed own_b own_a),
      decide_eq_false ba, if_neg Bool.false_ne_true]

theorem leastCommonSupertypes_yields (closed : env.Closed) (own_a : env.owns a = true)
    (own_b : env.owns b = true) :
    (env.leastCommonSupertypes a b).Yields (env.IsBound .least a b) := by
  have collected := Traced.outcome_filterM fun h (mem : h ∈ env.handles) =>
    Traced.outcome_andM (isSubtype_eq closed own_a (env.mem_handles.mp mem))
      (isSubtype_eq closed own_b (env.mem_handles.mp mem))
  have search : (env.antichain .least (env.handles.filter fun h =>
      decide (env.Below a h) && decide (env.Below b h))).Yields
      (env.Best .least (env.Candidate .least a b)) := by
    refine antichain_yields closed (fun h candidate => candidate.owns closed own_a) fun h => ?_
    simp only [List.mem_filter, env.mem_handles, Bool.and_eq_true, decide_eq_true_iff]
    exact and_iff_right_of_imp fun common => common.1.owns_upper own_a
  apply (shortcut_yields closed own_a own_b (search.of_outcome ?_)).of_outcome
  · rw [leastCommonSupertypes, outcome_query own_a own_b]
    rfl
  · rw [Traced.outcome_bind_of_ok collected]
    exact Traced.outcome_bind_of_ok rfl

theorem greatestCommonSubtypes_yields (closed : env.Closed) (own_a : env.owns a = true)
    (own_b : env.owns b = true) :
    (env.greatestCommonSubtypes a b).Yields (env.IsBound .greatest a b) := by
  obtain ⟨s, ha⟩ := exists_shape own_a
  obtain ⟨t, hb⟩ := exists_shape own_b
  obtain ⟨found, collected, mem⟩ := membersBelow_yields closed own_a own_b
  apply (shortcut_yields closed own_a own_b ?_).of_outcome
  · rw [greatestCommonSubtypes, outcome_query own_a own_b]
    rfl
  cases unions : s.isUnion && t.isUnion with
  | true =>
    have union_b : env.IsUnion b := (isUnion_iff_of_shape hb).mpr (Bool.and_eq_true_iff.mp unions).2
    have search : (env.antichain .greatest found.toList).Yields
        (env.Best .greatest (env.Candidate .greatest a b)) := by
      refine antichain_yields closed (fun h candidate => candidate.owns closed own_a) fun h => ?_
      rw [← SortedSet.mem_iff, mem]
      exact (and_iff_right union_b).symm
    apply search.of_outcome
    rw [Traced.outcome_lift_bind ha, Traced.outcome_lift_bind hb, unions, Bool.not_true,
      if_neg Bool.false_ne_true, Traced.outcome_bind_of_ok collected]
    exact Traced.outcome_bind_of_ok rfl
  | false =>
    apply Traced.yields_empty
    · rw [Traced.outcome_lift_bind ha, Traced.outcome_lift_bind hb, unions]
      rfl
    · rintro h ⟨⟨union_b, offered, -⟩, -⟩
      obtain ⟨next, step, -⟩ := Relation.TransGen.head'_iff.mp offered.path
      rw [(isUnion_iff_of_shape ha).mp (isUnion_of_leads step),
        (isUnion_iff_of_shape hb).mp union_b] at unions
      cases unions

theorem pairBound_yields (closed : env.Closed) (own_a : env.owns a = true)
    (own_b : env.owns b = true) : (env.pairBound bound a b).Yields (env.IsBound bound a b) := by
  cases bound with
  | least => exact leastCommonSupertypes_yields closed own_a own_b
  | greatest => exact greatestCommonSubtypes_yields closed own_a own_b

/-! ## Two lists -/

theorem IsCrossBound.owns (closed : env.Closed) (own_lefts : ∀ h ∈ lefts, env.owns h = true)
    (own_rights : ∀ h ∈ rights, env.owns h = true)
    (is_bound : env.IsCrossBound bound lefts rights h) : env.owns h = true := by
  obtain ⟨⟨left, hl, right, hr, is_bound⟩, -⟩ := is_bound
  exact is_bound.owns closed (own_lefts left hl) (own_rights right hr)

theorem crossBound_yields (closed : env.Closed) (own_lefts : ∀ h ∈ lefts, env.owns h = true)
    (own_rights : ∀ h ∈ rights, env.owns h = true) :
    (env.crossBound bound lefts rights).Yields (env.IsCrossBound bound lefts rights) := by
  have inner (left : Handle) (hl : left ∈ lefts) (right : Handle) (hr : right ∈ rights) :
      ∃ found, Traced.outcome (do return (← env.pairBound bound left right).toList) = .ok found ∧
        ∀ h, h ∈ found ↔ env.IsBound bound left right h := by
    obtain ⟨found, done, mem⟩ := pairBound_yields closed (own_lefts left hl) (own_rights right hr)
    exact ⟨found.toList, Traced.outcome_bind_of_ok done, mem⟩
  obtain ⟨bounds, collected, mem⟩ :=
    Traced.exists_flatMapM fun left hl => Traced.exists_flatMapM (inner left hl)
  have search : (env.antichain bound (SortedSet.ofList bounds : HandleSet).toList).Yields
      (env.IsCrossBound bound lefts rights) := by
    refine antichain_yields closed ?_ fun h => ?_
    · rintro h ⟨left, hl, right, hr, is_bound⟩
      exact is_bound.owns closed (own_lefts left hl) (own_rights right hr)
    · rw [← SortedSet.mem_iff, SortedSet.mem_ofList, mem]
  exact search.of_outcome (Traced.outcome_bind_of_ok collected)

/-- The pairwise bound of two finite sets is the bound of their lists, also where one of them is
empty and no pair is looked at. -/
theorem exists_pairwiseBound (closed : env.Closed) {lefts rights : HandleSet}
    (own_lefts : ∀ h ∈ lefts, env.owns h = true) (own_rights : ∀ h ∈ rights, env.owns h = true) :
    ∃ bounds, (env.pairwiseBound bound (.finite lefts) (.finite rights)).outcome =
        .ok (.finite bounds) ∧
      ∀ h, h ∈ bounds ↔ env.IsCrossBound bound lefts.toList rights.toList h := by
  unfold pairwiseBound
  split
  · rename_i empty
    refine ⟨∅, rfl, fun h => iff_of_false (SortedSet.not_mem_empty h) ?_⟩
    rintro ⟨⟨left, hl, right, hr, -⟩, -⟩
    rcases Bool.or_eq_true_iff.mp empty with empty | empty
    · rw [SortedSet.isEmpty_iff.mp empty] at hl
      cases hl
    · rw [SortedSet.isEmpty_iff.mp empty] at hr
      cases hr
  · have combined : (env.crossBound bound lefts.toList rights.toList).Yields
        (env.IsCrossBound bound lefts.toList rights.toList) :=
      crossBound_yields closed own_lefts own_rights
    obtain ⟨bounds, done, mem⟩ := combined
    exact ⟨bounds, Traced.outcome_bind_of_ok done, mem⟩

/-! ## One type after the other -/

section Rule

variable (closed : env.Closed) {Inv : List Handle → HandleSet → Prop}
  (stop : ∀ consumed running rest, running.toList = [] → Inv consumed running →
    Inv (consumed ++ rest) running)
  (step : ∀ consumed running next reduced, (∀ h ∈ running, env.owns h = true) →
    env.owns next = true → Inv consumed running →
    (∀ h, h ∈ reduced ↔ env.IsCrossBound bound running.toList [next] h) →
    Inv (consumed ++ [next]) reduced)

include closed stop step

/-- What holds of a single type and is kept by every step holds of the bound of a whole list.  When
nothing is left the rest of the list is not looked at. -/
theorem extendBound_rule {consumed rest : List Handle} {running : HandleSet}
    (inv : Inv consumed running) (own : ∀ h ∈ running, env.owns h = true)
    (own_rest : ∀ h ∈ rest, env.owns h = true) :
    ∃ result, (env.extendBound bound running rest).outcome = .ok result ∧
      Inv (consumed ++ rest) result := by
  induction rest generalizing consumed running with
  | nil => exact ⟨running, rfl, (List.append_nil consumed).symm ▸ inv⟩
  | cons next rest ih =>
    have ⟨own_next, own_rest⟩ := List.forall_mem_cons.mp own_rest
    have own_single : ∀ h ∈ [next], env.owns h = true := by simpa using own_next
    have one_step : (env.crossBound bound running.toList [next]).Yields
        (env.IsCrossBound bound running.toList [next]) := crossBound_yields closed own own_single
    obtain ⟨reduced, done, mem⟩ := one_step
    have inv' : Inv (consumed ++ [next]) reduced :=
      step consumed running next reduced own own_next inv mem
    rw [extendBound, Traced.outcome_bind_of_ok done, List.append_cons]
    by_cases empty : reduced.isEmpty = true
    · rw [if_pos empty]
      exact ⟨reduced, rfl, stop _ _ rest (SortedSet.isEmpty_iff.mp empty) inv'⟩
    · rw [if_neg empty]
      refine ih inv' (fun h hh => ?_) own_rest
      exact ((mem h).mp hh).owns closed own own_single

/-- The same for the bound of a set, which starts from the first of its types. -/
theorem setBound_rule (none : Inv [] ∅) (one : ∀ h, env.owns h = true → Inv [h] (.singleton h))
    {types : HandleSet} (own : ∀ h ∈ types, env.owns h = true) :
    ∃ result, (env.setBound bound (.finite types)).outcome = .ok result ∧
      Inv types.toList result := by
  simp only [setBound]
  cases order : types.toList with
  | nil => exact ⟨∅, rfl, none⟩
  | cons first rest =>
    have listed : ∀ h ∈ first :: rest, env.owns h = true := order ▸ own
    obtain ⟨own_first, own_rest⟩ := List.forall_mem_cons.mp listed
    refine extendBound_rule closed stop step (one first own_first) ?_ own_rest
    exact List.forall_mem_singleton.mpr own_first

end Rule

/-- A preorder that relates what is in the bound of two types to both of them relates what is in the
bound of a set to all of the set. -/
theorem exists_setBound_related (closed : env.Closed) {rel : Handle → Handle → Prop}
    (refl : ∀ h, rel h h) (trans : ∀ {t r s}, rel t r → rel r s → rel t s)
    (pair : ∀ {a b t}, env.IsBound bound a b t → rel t a ∧ rel t b) {types : HandleSet}
    (own : ∀ s ∈ types, env.owns s = true) :
    ∃ bounds, (env.setBound bound (.finite types)).outcome = .ok bounds ∧
      ∀ t ∈ bounds, ∀ s ∈ types, rel t s := by
  refine @setBound_rule env bound closed (fun consumed running => ∀ t ∈ running, ∀ s ∈ consumed,
    rel t s) ?_ ?_ (by simp) (by simpa using fun h _ => refl h) types own
  · intro consumed running rest empty _ t ht
    rw [SortedSet.mem_iff, empty] at ht
    exact absurd ht List.not_mem_nil
  · intro consumed running next reduced _ _ related mem t ht
    obtain ⟨⟨r, hr, n, hn, is_bound⟩, -⟩ := (mem t).mp ht
    cases List.mem_singleton.mp hn
    obtain ⟨tr, tn⟩ := pair is_bound
    refine List.forall_mem_append.mpr ⟨fun s hs => trans tr (related r hr s hs), ?_⟩
    exact List.forall_mem_singleton.mpr tn

end Environment

end TypeHierarchy
