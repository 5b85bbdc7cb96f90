import TypeHierarchy.Proofs.Totality

/-!
# Types of other environments in a bound

The bound of two types is refused when one of them belongs to another environment, whatever the other
is (`pairBound_foreign`).  The bound of a set refuses nothing by itself: it relies on the bounds of two
types that it is built up from, and so a foreign type is refused only if some type gets combined with
it.  That does not happen when the foreign type is alone in the set, nor when the types in front of it
have no bound left to combine with it (`RunsDry`).  In every other case it does.
-/

namespace TypeHierarchy

section SortedSet

variable {α : Type} {cmp : α → α → Ordering}

/-- The elements in front of the first one without the property. -/
def SortedSet.takeWhile (p : α → Bool) (s : SortedSet α cmp) : SortedSet α cmp :=
  ⟨s.toList.takeWhile p, s.increasing.sublist (List.takeWhile_sublist p)⟩

@[simp] theorem SortedSet.toList_takeWhile (p : α → Bool) (s : SortedSet α cmp) :
    (s.takeWhile p).toList = s.toList.takeWhile p := rfl

theorem SortedSet.eq_empty_iff_toList {s : SortedSet α cmp} : s = ∅ ↔ s.toList = [] :=
  toList_inj.symm

end SortedSet

theorem Traced.outcome_bind_of_error {α β : Type} {x : Traced α} {f : α → Traced β}
    {violation : Violation} (stops : x.outcome = .error violation) :
    (x >>= f).outcome = .error violation := by
  rw [outcome_bind, stops]
  rfl

theorem Traced.outcome_flatMapM_of_error {α β : Type} {f : α → Traced (List β)} {a : α}
    {l : List α} {violation : Violation} (stops : (f a).outcome = .error violation) :
    ((a :: l).flatMapM f).outcome = .error violation := by
  rw [List.flatMapM, List.flatMapM.loop, outcome_bind_of_error stops]

namespace Environment

open scoped Classical

/-- There are such types, and they have nothing in their bound. -/
def RunsDry (env : Environment) (bound : Bound) (front : HandleSet) : Prop :=
  front ≠ ∅ ∧ (env.setBound bound (.finite front)).outcome = .ok ∅

variable {env : Environment} {bound : Bound} {a b next : Handle} {lefts rest rights : List Handle}
  {running types : HandleSet}

/-! ## Two types -/

theorem requireOwn_eq_error {violation : Violation} (foreign : env.owns a = false) :
    env.requireOwn violation a = .error violation := if_neg (by simp [foreign])

/-- A query about a type of another environment stops before it leaves a line. -/
theorem query_eq_fail {α : Type} {violation : Violation} {body : Traced α}
    (foreign : env.owns a = false ∨ env.owns b = false) :
    (do env.requireOwn violation a
        env.requireOwn violation b
        body) = Traced.fail violation := by
  by_cases own : env.owns a = true
  · have foreign_b := foreign.resolve_left (by simp [own])
    rw [Traced.lift_bind (requireOwn_eq_ok own), requireOwn_eq_error foreign_b]
    rfl
  · rw [requireOwn_eq_error (Bool.eq_false_iff.mpr own)]
    rfl

theorem pairBound_foreign (bound : Bound) (foreign : env.owns a = false ∨ env.owns b = false) :
    (env.pairBound bound a b).outcome = .error .foreignBoundQuery := by
  cases bound with
  | least | greatest => exact congrArg Traced.outcome (query_eq_fail foreign)

/-! ## One type after the other -/

theorem crossBound_foreign (foreign : env.owns a = false ∨ env.owns b = false) :
    (env.crossBound bound (a :: lefts) (b :: rights)).outcome = .error .foreignBoundQuery := by
  have first : (do return (← env.pairBound bound a b).toList : Traced (List Handle)).outcome =
      .error .foreignBoundQuery := Traced.outcome_bind_of_error (pairBound_foreign bound foreign)
  exact Traced.outcome_bind_of_error
    (Traced.outcome_flatMapM_of_error (Traced.outcome_flatMapM_of_error first))

/-- A foreign type is refused as soon as there is a type to combine it with. -/
theorem extendBound_foreign_next {first : Handle} {others : List Handle}
    (order : running.toList = first :: others)
    (foreign : env.owns first = false ∨ env.owns next = false) :
    (env.extendBound bound running (next :: rest)).outcome = .error .foreignBoundQuery := by
  rw [extendBound, order]
  exact Traced.outcome_bind_of_error (crossBound_foreign foreign)

/-- Going on through a list with a foreign type in it depends on what is left when that type comes. -/
theorem exists_extendBound_foreign (bound : Bound) (closed : env.Closed)
    (own : ∀ h ∈ running, env.owns h = true) (some_left : running ≠ ∅)
    (foreign : ∃ h ∈ rest, env.owns h = false) :
    ∃ result, (env.extendBound bound running (rest.takeWhile env.owns)).outcome = .ok result ∧
      (env.extendBound bound running rest).outcome =
        if result = ∅ then .ok ∅ else .error .foreignBoundQuery := by
  -- The types left over change with each step; that there are some of them, all own, does not.
  induction rest generalizing running with
  | nil =>
    obtain ⟨h, mem, -⟩ := foreign
    cases mem
  | cons next rest ih =>
    by_cases own_next : env.owns next = true
    · have own_single : ∀ h ∈ [next], env.owns h = true := List.forall_mem_singleton.mpr own_next
      have one_step : (env.crossBound bound running.toList [next]).Yields
          (env.IsCrossBound bound running.toList [next]) := crossBound_yields closed own own_single
      obtain ⟨reduced, done, mem⟩ := one_step
      rw [List.takeWhile_cons_of_pos own_next, extendBound, extendBound,
        Traced.outcome_bind_of_ok done, Traced.outcome_bind_of_ok done]
      by_cases empty : reduced.isEmpty = true
      · have nothing : reduced = ∅ :=
          SortedSet.eq_empty_iff_toList.mpr (SortedSet.isEmpty_iff.mp empty)
        rw [if_pos empty, if_pos empty]
        refine ⟨reduced, rfl, ?_⟩
        rw [if_pos nothing, nothing]
        rfl
      · rw [if_neg empty, if_neg empty]
        refine ih (fun h hh => ((mem h).mp hh).owns closed own own_single) ?_ ?_
        · rintro rfl
          exact empty rfl
        · simpa [own_next] using foreign
    · -- Everything before `next` has been combined, and something is left.
      rw [List.takeWhile_cons_of_neg own_next]
      rw [ne_eq, SortedSet.eq_empty_iff_toList] at some_left
      obtain ⟨first, others, order⟩ := List.exists_cons_of_ne_nil some_left
      refine ⟨running, rfl, ?_⟩
      rw [if_neg (by rwa [SortedSet.eq_empty_iff_toList])]
      exact extendBound_foreign_next order (.inr (Bool.eq_false_iff.mpr own_next))

/-! ## Sets -/

theorem setBound_eq_of_order {first : Handle} (order : types.toList = first :: rest) :
    env.setBound bound (.finite types) = env.extendBound bound (.singleton first) rest := by
  simp only [setBound, order]

theorem setBound_of_own_first (closed : env.Closed) {first : Handle}
    (order : types.toList = first :: rest) (own : env.owns first = true)
    (foreign : ∃ h ∈ rest, env.owns h = false) :
    (env.setBound bound (.finite types)).outcome =
      if env.RunsDry bound (types.takeWhile env.owns) then .ok ∅
      else .error .foreignBoundQuery := by
  have start : ∀ h ∈ (.singleton first : HandleSet), env.owns h = true :=
    List.forall_mem_singleton.mpr own
  have some_left : (.singleton first : HandleSet) ≠ ∅ := by simp [SortedSet.eq_empty_iff_toList]
  obtain ⟨result, front_done, done⟩ :=
    exists_extendBound_foreign bound closed start some_left foreign
  have front : (types.takeWhile env.owns).toList = first :: rest.takeWhile env.owns := by
    rw [SortedSet.toList_takeWhile, order, List.takeWhile_cons_of_pos own]
  have dry_iff : env.RunsDry bound (types.takeWhile env.owns) ↔ result = ∅ := by
    rw [RunsDry, setBound_eq_of_order front, front_done, Except.ok.injEq, ne_eq,
      SortedSet.eq_empty_iff_toList, front]
    simp
  rw [setBound_eq_of_order order, done]
  simp only [dry_iff]

/-- The bound of two types refuses a foreign one always.  The bound of a set with a foreign type in it
is the set itself if that has no other type, is empty if the types in front of the first foreign one
run dry, and is refused in every other case. -/
theorem bounds_of_foreign (reachable : env.Reachable) (bound : Bound) :
    (∀ a b, env.owns a = false ∨ env.owns b = false →
      (env.pairBound bound a b).outcome = .error .foreignBoundQuery) ∧
    ∀ types : HandleSet, (∃ h ∈ types, env.owns h = false) →
      (env.setBound bound (.finite types)).outcome =
        if types.size = 1 then .ok types
        else if env.RunsDry bound (types.takeWhile env.owns) then .ok ∅
        else .error .foreignBoundQuery := by
  refine ⟨fun a b => pairBound_foreign bound, fun types foreign => ?_⟩
  simp only [SortedSet.mem_iff] at foreign
  cases order : types.toList with
  | nil => simp [order] at foreign
  | cons first rest =>
    by_cases own : env.owns first = true
    · have foreign_rest : ∃ h ∈ rest, env.owns h = false := by simpa [order, own] using foreign
      have several : types.size ≠ 1 := by
        obtain ⟨h, mem, -⟩ := foreign_rest
        simpa [SortedSet.size, order] using List.ne_nil_of_mem mem
      rw [if_neg several]
      exact setBound_of_own_first reachable.closed order own foreign_rest
    · rw [setBound_eq_of_order order]
      cases rest with
      | nil =>
        have alone : types = .singleton first := SortedSet.toList_inj.mp order
        have size : types.size = 1 := by simp [SortedSet.size, order]
        rw [if_pos size, alone]
        rfl
      | cons next rest =>
        have several : types.size ≠ 1 := by simp [SortedSet.size, order]
        have nothing_in_front : types.takeWhile env.owns = ∅ := by
          rw [SortedSet.eq_empty_iff_toList, SortedSet.toList_takeWhile, order,
            List.takeWhile_cons_of_neg own]
        rw [if_neg several, if_neg fun dry => dry.1 nothing_in_front]
        exact extendBound_foreign_next rfl (.inl (Bool.eq_false_iff.mpr own))

/-- Two environments, with nothing declared in either. -/
theorem environments_twice :
    (Workspace.run {} [.create, .create]).environments = #[initial ⟨0⟩, initial ⟨1⟩] := by
  decide +kernel

theorem reachable_initial_twice : (initial ⟨0⟩).Reachable :=
  ⟨_, .run .empty [.create, .create], environments_twice ▸ Array.mem_of_getElem? (i := 0) rfl⟩

/-- The signed and the symbol primitive have neither bound, and nothing is left to combine with a third
type.  The signed type and its primitive have both. -/
theorem setBound_primitives (bound : Bound) :
    ((initial ⟨0⟩).setBound bound (.ofList [⟨⟨0⟩, 4⟩, ⟨⟨0⟩, 6⟩])).outcome = .ok ∅ ∧
    ((initial ⟨0⟩).setBound bound (.ofList [⟨⟨0⟩, 4⟩, ⟨⟨0⟩, 6⟩, ⟨⟨1⟩, 4⟩])).outcome = .ok ∅ ∧
    ((initial ⟨0⟩).setBound bound (.ofList [⟨⟨0⟩, 0⟩, ⟨⟨0⟩, 4⟩])).outcome =
      .ok (.singleton (if bound = .least then ⟨⟨0⟩, 0⟩ else ⟨⟨0⟩, 4⟩)) := by
  cases bound <;> refine ⟨?_, ?_, ?_⟩ <;> exact eq_ok_of_toOption (by decide +kernel)

/-- The foreign primitive is refused behind two types that have a bound, and not behind two that have
none. -/
theorem bounds_of_foreign_primitive :
    (initial ⟨0⟩).owns ⟨⟨1⟩, 4⟩ = false ∧ ∀ bound,
      ((initial ⟨0⟩).setBound bound (.ofList [⟨⟨0⟩, 0⟩, ⟨⟨0⟩, 4⟩, ⟨⟨1⟩, 4⟩])).outcome =
        .error .foreignBoundQuery ∧
      ((initial ⟨0⟩).setBound bound (.ofList [⟨⟨0⟩, 4⟩, ⟨⟨0⟩, 6⟩, ⟨⟨1⟩, 4⟩])).outcome = .ok ∅ := by
  refine ⟨rfl, fun bound => ?_⟩
  obtain ⟨dry, -, left⟩ := setBound_primitives bound
  obtain ⟨-, sets⟩ := bounds_of_foreign reachable_initial_twice bound
  have refused := sets (.ofList [⟨⟨0⟩, 0⟩, ⟨⟨0⟩, 4⟩, ⟨⟨1⟩, 4⟩]) ⟨⟨⟨1⟩, 4⟩, by decide, rfl⟩
  have passed := sets (.ofList [⟨⟨0⟩, 4⟩, ⟨⟨0⟩, 6⟩, ⟨⟨1⟩, 4⟩]) ⟨⟨⟨1⟩, 4⟩, by decide, rfl⟩
  rw [if_neg (by decide), if_neg fun dry => by cases left.symm.trans dry.2] at refused
  rw [if_neg (by decide), if_pos ⟨by decide, dry⟩] at passed
  exact ⟨refused, passed⟩

/-- A type of another environment, refused together with itself, is let through alone, and also behind
two primitives that have nothing in common. -/
theorem setBound_foreign_accepted :
    (Workspace.run {} [.create, .create]).environments = #[initial ⟨0⟩, initial ⟨1⟩] ∧
    (initial ⟨0⟩).Reachable ∧
    (initial ⟨1⟩).owns ⟨⟨1⟩, 4⟩ = true ∧ (initial ⟨0⟩).owns ⟨⟨1⟩, 4⟩ = false ∧ ∀ bound,
      ((initial ⟨0⟩).pairBound bound ⟨⟨1⟩, 4⟩ ⟨⟨1⟩, 4⟩).outcome = .error .foreignBoundQuery ∧
      ((initial ⟨0⟩).setBound bound (.singleton ⟨⟨1⟩, 4⟩)).outcome = .ok (.singleton ⟨⟨1⟩, 4⟩) ∧
      ((initial ⟨0⟩).setBound bound (.ofList [⟨⟨0⟩, 4⟩, ⟨⟨0⟩, 6⟩, ⟨⟨1⟩, 4⟩])).outcome = .ok ∅ := by
  refine ⟨environments_twice, reachable_initial_twice, rfl, rfl, fun bound => ?_⟩
  obtain ⟨-, passed, -⟩ := setBound_primitives bound
  exact ⟨pairBound_foreign bound (.inl rfl), rfl, passed⟩

end Environment

end TypeHierarchy
