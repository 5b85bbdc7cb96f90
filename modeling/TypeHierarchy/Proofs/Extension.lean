import TypeHierarchy.Proofs.Copy

/-!
# Declaring further types

A declared type refers to older types, and no older type refers to it.  So the environment is copied
into the larger one (`copied_push`), and what it answers about its own types stays the same
(`tryDeclare_conservative`).  Only the least bounds take an argument of their own, because they are
looked for among all types.  A new union is empty and may lie above older ones that hold nothing, but
never above two types of which neither is above the other (`conserved_push`).
-/

namespace TypeHierarchy

theorem Shape.mapHandles_self (s : Shape) : s.mapHandles (fun h => h) = s := by
  cases s <;> simp [mapHandles]

namespace Environment

variable {env env' : Environment} {name : String} {declaration : Declaration} {entry : Entry}
  {a added h x : Handle}

theorem entry_push (pushed : env' = { env with entries := env.entries.push entry }) {e : Entry}
    (found : env.entry h = .ok e) : env'.entry h = .ok e := by
  obtain ⟨same, found⟩ := entry_eq_ok_iff.mp found
  obtain ⟨bound, -⟩ := Array.getElem?_eq_some_iff.mp found
  subst pushed
  refine entry_eq_ok_iff.mpr ⟨same, ?_⟩
  rw [Array.getElem?_push, if_neg (Nat.ne_of_lt bound)]
  exact found

theorem copied_push (pushed : env' = { env with entries := env.entries.push entry }) :
    env.Copied (fun h => h) env' where
  injective _ _ same := same
  entry found := by
    rw [Shape.mapHandles_self]
    exact entry_push pushed found

/-- A type that was not there before is the new one. -/
theorem shape_of_new (pushed : env' = { env with entries := env.entries.push entry })
    (own : env'.owns x = true) (new : env.owns x = false) : env'.shape x = .ok entry.shape := by
  subst pushed
  obtain ⟨same, bound⟩ := (owns_iff _).mp own
  have last : x.index = env.entries.size := by
    have beyond : ¬ x.index < env.size := fun before =>
      Bool.false_ne_true (new.symm.trans (env.owns_iff.mpr ⟨same, before⟩))
    simp only [size, Array.size_push] at bound beyond
    omega
  refine shape_eq_ok_iff.mpr ⟨same, entry.name, ?_⟩
  rw [last, Array.getElem?_push, if_pos rfl]

/-- A new type has a type of the environment below it only where both are unions, and then the new
one, which is empty, is below the other in turn. -/
theorem below_of_below_new (closed : env.Closed)
    (pushed : env' = { env with entries := env.entries.push ⟨name, declaration.shape⟩ })
    (own : env.owns a = true) (new : env.owns x = false) (below : env'.Below a x) :
    env'.IsUnion a ∧ env'.Below x a := by
  have mirrored := (copied_push pushed).mirrored
  have apart : a ≠ x := fun same => Bool.false_ne_true (new.symm.trans (same ▸ own))
  have not_root : ¬ env'.Reduces a x := by
    intro reduces
    obtain ⟨root, reduces', rfl⟩ := mirrored.image_of_reduces closed reduces own rfl
    exact Bool.false_ne_true (new.symm.trans reduces'.owns_root)
  have shape := shape_of_new pushed (below.owns_upper (mirrored.owns own)) new
  cases below with
  | refl => exact absurd rfl apart
  | root reduces => exact absurd reduces not_root
  | left ha hx na nx _ =>
    cases declaration with
    | subset | record => cases shape.symm.trans hx
    | union => exact ⟨⟨_, ha⟩, .left shape ha nx na fun member mem => absurd mem List.not_mem_nil⟩
  | right _ _ hx _ _ mem _ =>
    cases declaration with
    | subset | record => cases shape.symm.trans hx
    | union =>
      cases shape.symm.trans hx
      exact absurd mem List.not_mem_nil

theorem conserved_push (closed : env.Closed)
    (pushed : env' = { env with entries := env.entries.push ⟨name, declaration.shape⟩ }) :
    env.Conserved (fun h => h) env' where
  toMirrored := (copied_push pushed).mirrored
  uppers {a b x} own_a own_b nab _ above_a above_b := by
    cases new : env.owns x with
    | true => exact ⟨x, new, rfl⟩
    | false =>
      -- Both types would be below the new union and this one below the second of them.
      obtain ⟨union_b, below_b⟩ := below_of_below_new closed pushed own_b new above_b
      have chain : env'.Below a b := below_trans above_a below_b (.inl union_b)
      exact absurd (((copied_push pushed).mirrored.below_iff closed own_a own_b).mp chain) nab

/-- A declaration changes no answer about the types that were there before. -/
theorem tryDeclare_conservative (reachable : env.Reachable)
    (declared : (env.tryDeclare name declaration).Gives added env') :
    (∀ a b, env.owns a = true → env.owns b = true →
      env'.reducesTo a b = env.reducesTo a b ∧
      (env'.isSubtype a b).outcome = (env.isSubtype a b).outcome ∧
      ∀ bound, (env'.pairBound bound a b).outcome = (env.pairBound bound a b).outcome) ∧
    (∀ h, env.owns h = true →
      env'.isRecursive h = env.isRecursive h ∧ env'.attributeOf h = env.attributeOf h ∧
      env'.qualifier h = env.qualifier h ∧ env'.showType h = env.showType h) ∧
    (∀ bound types, env.OwnsAll types →
      (env'.setBound bound types).outcome = (env.setBound bound types).outcome) ∧
    ∀ bound left right, env.OwnsAll left → env.OwnsAll right →
      (env'.pairwiseBound bound left right).outcome =
        (env.pairwiseBound bound left right).outcome := by
  have arranged := reachable.arranged
  have arranged' := (Change.of_tryDeclare declared).arranged arranged
  obtain ⟨-, -, -, pushed⟩ := gives_tryDeclare_iff.mp declared
  have copied := copied_push pushed
  have conserved := conserved_push arranged.closed pushed
  have alike := conserved.answersAlike arranged arranged'
  have families := conserved.familiesAlike arranged.closed arranged'.closed fun _ _ _ _ lt => lt
  refine ⟨fun a b own_a own_b => ⟨alike.reducesTo own_a own_b, alike.isSubtype own_a own_b,
    fun bound => ?_⟩, fun h own => ⟨alike.isRecursive own, alike.attributeOf own,
    copied.qualifier_eq arranged arranged' own, copied.showType_eq arranged.closed own⟩,
    fun bound types own => ?_, fun bound left right own_left own_right => ?_⟩
  · have same := alike.pairBound bound own_a own_b
    rwa [SortedSet.map_self, Except.map_id, id_eq] at same
  · have same := families.setBound bound types own
    rwa [TypeSet.map_self, id_eq, SortedSet.map_self, Except.map_id, id_eq] at same
  · have same := families.pairwiseBound bound left right own_left own_right
    rwa [TypeSet.map_self, id_eq, id_eq, Except.map_id, id_eq] at same

/-- The environment with an empty union and a union of the signed primitive, and a second empty
union. -/
def secondHollow : Environment :=
  { hollowChain with entries := hollowChain.entries.push ⟨"Void", .union []⟩ }

/-- The new union gets above the old empty one.  All the same the bound of the old one and the
primitive stays the union of the primitive. -/
theorem tryDeclare_conservative_secondHollow :
    (hollowChain.tryDeclare "Void" .union).Gives ⟨⟨0⟩, 10⟩ secondHollow ∧
    (secondHollow.isSubtype ⟨⟨0⟩, 8⟩ ⟨⟨0⟩, 10⟩).outcome = .ok true ∧
    (secondHollow.pairBound .least ⟨⟨0⟩, 8⟩ ⟨⟨0⟩, 4⟩).outcome = .ok (.singleton ⟨⟨0⟩, 9⟩) := by
  have declared : (hollowChain.tryDeclare "Void" .union).Gives ⟨⟨0⟩, 10⟩ secondHollow :=
    ⟨eq_ok_of_toOption (by decide +kernel), by decide +kernel⟩
  have above : (secondHollow.isSubtype ⟨⟨0⟩, 8⟩ ⟨⟨0⟩, 10⟩).outcome = .ok true :=
    eq_ok_of_toOption (by decide +kernel)
  have before : (hollowChain.pairBound .least ⟨⟨0⟩, 8⟩ ⟨⟨0⟩, 4⟩).outcome =
      .ok (.singleton ⟨⟨0⟩, 9⟩) := eq_ok_of_toOption (by decide +kernel)
  obtain ⟨pairs, -⟩ := tryDeclare_conservative reachable_hollowChain declared
  obtain ⟨-, -, bounds⟩ := pairs ⟨⟨0⟩, 8⟩ ⟨⟨0⟩, 4⟩ (by decide) (by decide)
  exact ⟨declared, above, (bounds .least).trans before⟩

end Environment

end TypeHierarchy
