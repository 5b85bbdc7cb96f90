import TypeHierarchy.Proofs.Transfer

/-!
# The order of members and fields

Two environments may differ in the order of the members of unions and the fields of records, in
repetitions, and in the names of types and fields.  Apart from the texts, no answer depends on that
(`reordered_answers`).
-/

namespace TypeHierarchy.Environment

/-- At each place the environments have types of the same make, up to order and repetitions. -/
structure Reordered (env env' : Environment) : Prop where
  size : env'.size = env.size
  shapes : ∀ {i : Nat} {e e' : Entry}, env.entries[i]? = some e → env'.entries[i]? = some e' →
    e.shape.Mirrored env'.counterpart e'.shape

variable {env env' : Environment} {x : Handle}

theorem Reordered.mirrored (reordered : env.Reordered env') :
    env.Mirrored env'.counterpart env' where
  injective := counterpart_inj
  shape {h s} hs := by
    obtain ⟨-, name, found⟩ := shape_eq_ok_iff.mp hs
    have bound : h.index < env'.size := by
      rw [reordered.size]
      exact (env.owns_iff.mp (owns_of_shape hs)).2
    have found' : env'.entries[h.index]? = some env'.entries[h.index] :=
      Array.getElem?_eq_getElem bound
    exact ⟨_, shape_eq_ok_iff.mpr ⟨rfl, _, found'⟩, reordered.shapes found found'⟩

theorem Reordered.image_of_owns (reordered : env.Reordered env') (own : env'.owns x = true) :
    Image env'.counterpart (env.owns · = true) x := by
  obtain ⟨same, bound⟩ := env'.owns_iff.mp own
  refine ⟨env.handle x.index, env.owns_iff.mpr ⟨rfl, reordered.size ▸ bound⟩, ?_⟩
  show env'.handle x.index = x
  rw [handle, ← same]

/-- All types of the second environment are counterparts, so that nothing can get between. -/
theorem Reordered.conserved (reordered : env.Reordered env') :
    env.Conserved env'.counterpart env' where
  toMirrored := reordered.mirrored
  uppers own_a _ _ _ above_a _ :=
    reordered.image_of_owns (above_a.owns_upper (reordered.mirrored.owns own_a))

/-- Environments that differ in the order of members and fields only give the same answers, and their
bounds consist of the types at the same places. -/
theorem reordered_answers (reachable : env.Reachable) (reachable' : env'.Reachable)
    (reordered : env.Reordered env') :
    env.AnswersAlike env'.counterpart env' ∧ env.FamiliesAlike env'.counterpart env' := by
  have arranged := reachable.arranged
  have arranged' := reachable'.arranged
  refine ⟨reordered.conserved.answersAlike arranged arranged', ?_⟩
  refine reordered.conserved.familiesAlike arranged.closed arranged'.closed ?_
  intro a b own_a own_b before
  rwa [compare_counterpart own_a own_b]

/-- A record that refers to itself through a union, and a second union that shares one member with the
first. -/
def listOrNumber : Environment :=
  { initial ⟨0⟩ with entries := (initial ⟨0⟩).entries ++
      #[⟨"List", .record [⟨"head", ⟨⟨0⟩, 10⟩⟩, ⟨"tail", ⟨⟨0⟩, 9⟩⟩]⟩,
        ⟨"Tail", .union [⟨⟨0⟩, 8⟩, ⟨⟨0⟩, 4⟩, ⟨⟨0⟩, 5⟩]⟩,
        ⟨"Atom", .union [⟨⟨0⟩, 5⟩, ⟨⟨0⟩, 6⟩]⟩] }

/-- The same types in another environment, with members and fields the other way round and some of
them twice. -/
def numberOrList : Environment :=
  { initial ⟨1⟩ with entries := (initial ⟨1⟩).entries ++
      #[⟨"List", .record [⟨"rest", ⟨⟨1⟩, 9⟩⟩, ⟨"last", ⟨⟨1⟩, 10⟩⟩, ⟨"first", ⟨⟨1⟩, 10⟩⟩]⟩,
        ⟨"Tail", .union [⟨⟨1⟩, 5⟩, ⟨⟨1⟩, 4⟩, ⟨⟨1⟩, 8⟩, ⟨⟨1⟩, 5⟩]⟩,
        ⟨"Atom", .union [⟨⟨1⟩, 6⟩, ⟨⟨1⟩, 5⟩]⟩] }

theorem reachable_listOrNumber : listOrNumber.Reachable := by
  have made : Environment.after [.declare 0 "List" .record, .declare 0 "Tail" .union,
      .declare 0 "Atom" .union, .addField 0 ⟨⟨0⟩, 8⟩ "head" ⟨⟨0⟩, 10⟩,
      .addField 0 ⟨⟨0⟩, 8⟩ "tail" ⟨⟨0⟩, 9⟩, .addMember 0 ⟨⟨0⟩, 9⟩ ⟨⟨0⟩, 8⟩,
      .addMember 0 ⟨⟨0⟩, 9⟩ ⟨⟨0⟩, 4⟩, .addMember 0 ⟨⟨0⟩, 9⟩ ⟨⟨0⟩, 5⟩,
      .addMember 0 ⟨⟨0⟩, 10⟩ ⟨⟨0⟩, 5⟩, .addMember 0 ⟨⟨0⟩, 10⟩ ⟨⟨0⟩, 6⟩] = listOrNumber := by
    decide +kernel
  exact made ▸ reachable_after _

theorem reachable_numberOrList : numberOrList.Reachable := by
  have made : (Workspace.run {} [.create, .create, .declare 1 "List" .record,
      .declare 1 "Tail" .union, .declare 1 "Atom" .union,
      .addField 1 ⟨⟨1⟩, 8⟩ "rest" ⟨⟨1⟩, 9⟩, .addField 1 ⟨⟨1⟩, 8⟩ "last" ⟨⟨1⟩, 10⟩,
      .addField 1 ⟨⟨1⟩, 8⟩ "first" ⟨⟨1⟩, 10⟩, .addMember 1 ⟨⟨1⟩, 9⟩ ⟨⟨1⟩, 5⟩,
      .addMember 1 ⟨⟨1⟩, 9⟩ ⟨⟨1⟩, 4⟩, .addMember 1 ⟨⟨1⟩, 9⟩ ⟨⟨1⟩, 8⟩,
      .addMember 1 ⟨⟨1⟩, 9⟩ ⟨⟨1⟩, 5⟩, .addMember 1 ⟨⟨1⟩, 10⟩ ⟨⟨1⟩, 6⟩,
      .addMember 1 ⟨⟨1⟩, 10⟩ ⟨⟨1⟩, 5⟩]).environments[1]? = some numberOrList := by decide +kernel
  exact ⟨_, .run .empty _, Array.mem_of_getElem? made⟩

theorem reordered_listOrNumber : listOrNumber.Reordered numberOrList where
  size := rfl
  shapes {i e e'} found found' := by
    match i with
    | 0 | 1 | 2 | 3 =>
      cases found
      cases found'
      exact .constant _
    | 4 | 5 | 6 | 7 =>
      cases found
      cases found'
      exact .subset _ _
    | 8 =>
      cases found
      cases found'
      exact .record fun x => ⟨fun hx => List.subset_def.mp (by decide) hx,
        fun hx => List.subset_def.mp (by decide) hx⟩
    | 9 | 10 =>
      cases found
      cases found'
      exact .union fun x => ⟨fun hx => List.subset_def.mp (by decide) hx,
        fun hx => List.subset_def.mp (by decide) hx⟩
    | i + 11 => cases found

/-- In the second environment too the record is recursive, and the two unions have the shared member
as their bound, on their own and together with that member. -/
theorem reordered_answers_listOrNumber :
    numberOrList.isRecursive ⟨⟨1⟩, 8⟩ = .ok true ∧
    (numberOrList.pairBound .greatest ⟨⟨1⟩, 9⟩ ⟨⟨1⟩, 10⟩).outcome = .ok (.singleton ⟨⟨1⟩, 5⟩) ∧
    (numberOrList.setBound .greatest (.ofList [⟨⟨1⟩, 5⟩, ⟨⟨1⟩, 9⟩, ⟨⟨1⟩, 10⟩])).outcome =
      .ok (.singleton ⟨⟨1⟩, 5⟩) := by
  have recursive : listOrNumber.isRecursive ⟨⟨0⟩, 8⟩ = .ok true :=
    eq_ok_of_toOption (by decide +kernel)
  have shared : (listOrNumber.pairBound .greatest ⟨⟨0⟩, 9⟩ ⟨⟨0⟩, 10⟩).outcome =
      .ok (.singleton ⟨⟨0⟩, 5⟩) := eq_ok_of_toOption (by decide +kernel)
  have shared_all : (listOrNumber.setBound .greatest
      (.ofList [⟨⟨0⟩, 5⟩, ⟨⟨0⟩, 9⟩, ⟨⟨0⟩, 10⟩])).outcome = .ok (.singleton ⟨⟨0⟩, 5⟩) :=
    eq_ok_of_toOption (by decide +kernel)
  obtain ⟨alike, families⟩ :=
    reordered_answers reachable_listOrNumber reachable_numberOrList reordered_listOrNumber
  have own : ∀ h ∈ (.ofList [⟨⟨0⟩, 5⟩, ⟨⟨0⟩, 9⟩, ⟨⟨0⟩, 10⟩] : HandleSet),
      listOrNumber.owns h = true := by decide
  refine ⟨(alike.isRecursive (by decide)).trans recursive, ?_, ?_⟩
  · refine (alike.pairBound .greatest (own ⟨⟨0⟩, 9⟩ (by decide)) (own ⟨⟨0⟩, 10⟩ (by decide))).trans ?_
    rw [shared]
    rfl
  · refine (families.setBound .greatest (.ofList [⟨⟨0⟩, 5⟩, ⟨⟨0⟩, 9⟩, ⟨⟨0⟩, 10⟩]) own).trans ?_
    rw [shared_all]
    rfl

end TypeHierarchy.Environment
