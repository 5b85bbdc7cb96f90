import TypeHierarchy.Proofs.Isolation

/-!
# Further fields

A field counts for nothing but recursion: reduction stops at records, and so does the search for a way
from a union back to it.  A record that gets a field may become recursive and never ceases to be, and a
recursive type is related to nothing but itself.  So the check says yes to fewer pairs than before, at
whatever distance from the record (`addField_only_removes`).

`GainsFields` is all that has to be known about the environments before and after.
-/

namespace TypeHierarchy

theorem Shape.Extends.isUnion_eq {s t : Shape} (grown : s.Extends t) : t.isUnion = s.isUnion := by
  cases grown <;> rfl

namespace Environment

open scoped Classical
open Relation

/-- The second environment is the first one with further fields in some of its records. -/
structure GainsFields (env env' : Environment) : Prop where
  grows : env.Grows env'
  owns : ∀ h, env'.owns h = env.owns h
  kept : ∀ {h : Handle} {s : Shape}, s.isRecord = false →
    (env'.shape h = .ok s ↔ env.shape h = .ok s)

variable {env env' : Environment} {a b h record root type : Handle} {s : Shape} {name : String}
  {n : Nat}

theorem gainsFields_addField (added : (env.addField record name type).Gives n env') :
    env.GainsFields env' := by
  obtain ⟨fields, hs, -, -, rfl⟩ := gives_addField_iff.mp added
  refine ⟨grows_setShape hs (.record _ _), fun h => owns_setShape record, fun {h s} plain => ?_⟩
  by_cases same : h = record
  · subst same
    rw [shape_setShape hs, hs]
    -- The record is a record before and after.
    constructor
    · rintro ⟨⟩
      cases plain
    · rintro ⟨⟩
      cases plain
  · rw [shape, entry_setShape_of_ne (owns_of_shape hs) same, shape]

/-- Records play no part in a reduction. -/
theorem Reduces.of_shapes
    (kept : ∀ {h : Handle} {s : Shape}, s.isRecord = false → env.shape h = .ok s →
      env'.shape h = .ok s) (reduces : env.Reduces h root) : env'.Reduces h root := by
  induction reduces with
  | constant shape => exact .constant (kept rfl shape)
  | itself shape => exact .itself (kept rfl shape)
  | subset shape _ ih => exact .subset (kept rfl shape) ih
  | union shape nonempty _ ih => exact .union (kept rfl shape) nonempty ih

namespace GainsFields

/-! ## What stays as it was -/

theorem reduces_iff (gains : env.GainsFields env') :
    env'.Reduces h root ↔ env.Reduces h root :=
  ⟨.of_shapes fun plain => (gains.kept plain).mp, .of_shapes fun plain => (gains.kept plain).mpr⟩

theorem firstKind?_eq (gains : env.GainsFields env') (h : Handle) :
    env'.firstKind? h = env.firstKind? h := by
  unfold firstKind? constantType handle
  simp only [gains.reduces_iff, gains.grows.id]

theorem leads_false_eq (gains : env.GainsFields env') : env'.Leads false = env.Leads false := by
  rw [leads_false, leads_false]
  funext h next
  exact propext (exists_congr fun members => and_congr_left fun _ => gains.kept rfl)

/-- No way between unions goes through a field. -/
theorem recursive_iff_of_plain (gains : env.GainsFields env') (hs : env.shape h = .ok s)
    (plain : s.isRecord = false) : env'.Recursive h ↔ env.Recursive h := by
  rw [recursive_iff ((gains.kept plain).mpr hs), recursive_iff hs, plain, gains.leads_false_eq]

/-! ## What may get lost -/

theorem exists_shape_before (gains : env.GainsFields env') (hs : env'.shape h = .ok s) :
    ∃ old, env.shape h = .ok old ∧ old.isUnion = s.isUnion := by
  obtain ⟨old, hold⟩ := exists_shape ((gains.owns h).symm.trans (owns_of_shape hs))
  obtain ⟨s', hs', grown⟩ := gains.grows.exists_shape hold
  cases hs.symm.trans hs'
  exact ⟨old, hold, grown.isUnion_eq.symm⟩

/-- What is below a type in spite of the fields was below it without them. -/
theorem below (gains : env.GainsFields env') (below : env'.Below a b) : env.Below a b := by
  have before {h : Handle} (plain : ¬ env'.Recursive h) : ¬ env.Recursive h := fun recursive =>
    plain (gains.grows.recursive recursive)
  induction below with
  | refl a => exact .refl a
  | root reduces => exact .root (gains.reduces_iff.mp reduces)
  | left ha hb na nb _ ih =>
    exact .left ((gains.kept rfl).mp ha) ((gains.kept rfl).mp hb) (before na) (before nb) ih
  | right ha plain hb na nb mem _ ih =>
    obtain ⟨old, hold, same⟩ := gains.exists_shape_before ha
    exact .right hold (same.trans plain) ((gains.kept rfl).mp hb) (before na) (before nb) mem ih

end GainsFields

/-- A further field changes neither what a type reduces to nor its attribute, nor whether a union is
recursive.  A recursive type stays recursive, and the check says yes only where it said yes before. -/
theorem addField_only_removes (reachable : env.Reachable)
    (added : (env.addField record name type).Gives n env') :
    (∀ h, env.owns h = true →
      (∀ root, env'.reducesTo h root = env.reducesTo h root) ∧
      env'.attributeOf h = env.attributeOf h ∧
      (env.isRecursive h = .ok true → env'.isRecursive h = .ok true)) ∧
    (∀ h members, env.shape h = .ok (.union members) → env'.isRecursive h = env.isRecursive h) ∧
    ∀ a b, (env'.isSubtype a b).outcome = .ok true → (env.isSubtype a b).outcome = .ok true := by
  have closed := reachable.closed
  have closed' := (Change.of_addField added).closed closed
  have gains := gainsFields_addField added
  refine ⟨fun h own => ?_, fun h members hs => ?_, fun a b yes => ?_⟩
  · have own' := (gains.owns h).trans own
    refine ⟨fun root => ?_, ?_, fun yes => ?_⟩
    · simp only [reducesTo_eq closed' own', reducesTo_eq closed own, gains.reduces_iff]
    · rw [attributeOf_eq closed' own', attributeOf_eq closed own, gains.firstKind?_eq]
    · rw [isRecursive_iff closed own] at yes
      exact (isRecursive_iff closed' own').mpr (gains.grows.recursive yes)
  · have own := owns_of_shape hs
    have own' := (gains.owns h).trans own
    simp only [isRecursive_eq closed' own', isRecursive_eq closed own,
      gains.recursive_iff_of_plain hs rfl]
  · obtain ⟨own_a, own_b, below⟩ := (accepts_iff closed').mp yes
    rw [gains.owns] at own_a own_b
    exact (gains.below below).accepts closed own_a own_b

/-- A record for the cells of a list and one for its end, a union of the two, and a union that holds
the symbols as well.  Nothing leads from a cell to the rest of the list. -/
def looseCells : Environment :=
  { initial ⟨0⟩ with entries := (initial ⟨0⟩).entries ++
      #[⟨"Cell", .record [⟨"head", ⟨⟨0⟩, 4⟩⟩]⟩, ⟨"End", .record []⟩,
        ⟨"List", .union [⟨⟨0⟩, 8⟩, ⟨⟨0⟩, 9⟩]⟩,
        ⟨"Tree", .union [⟨⟨0⟩, 9⟩, ⟨⟨0⟩, 8⟩, ⟨⟨0⟩, 6⟩]⟩] }

/-- The same, where a cell has the rest of the list as a field. -/
def linkedCells : Environment :=
  { initial ⟨0⟩ with entries := (initial ⟨0⟩).entries ++
      #[⟨"Cell", .record [⟨"head", ⟨⟨0⟩, 4⟩⟩, ⟨"tail", ⟨⟨0⟩, 10⟩⟩]⟩, ⟨"End", .record []⟩,
        ⟨"List", .union [⟨⟨0⟩, 8⟩, ⟨⟨0⟩, 9⟩]⟩,
        ⟨"Tree", .union [⟨⟨0⟩, 9⟩, ⟨⟨0⟩, 8⟩, ⟨⟨0⟩, 6⟩]⟩] }

theorem reachable_looseCells : looseCells.Reachable := by
  have made : Environment.after [.declare 0 "Cell" .record, .declare 0 "End" .record,
      .declare 0 "List" .union, .declare 0 "Tree" .union, .addField 0 ⟨⟨0⟩, 8⟩ "head" ⟨⟨0⟩, 4⟩,
      .addMember 0 ⟨⟨0⟩, 10⟩ ⟨⟨0⟩, 8⟩, .addMember 0 ⟨⟨0⟩, 10⟩ ⟨⟨0⟩, 9⟩,
      .addMember 0 ⟨⟨0⟩, 11⟩ ⟨⟨0⟩, 9⟩, .addMember 0 ⟨⟨0⟩, 11⟩ ⟨⟨0⟩, 8⟩,
      .addMember 0 ⟨⟨0⟩, 11⟩ ⟨⟨0⟩, 6⟩] = looseCells := by decide +kernel
  exact made ▸ reachable_after _

/-- With the link the cells become recursive, and the lists, which are no records and not recursive
themselves, are no longer below the trees.  The end of a list is below both unions, with and without
the link. -/
theorem addField_only_removes_looseCells :
    (looseCells.addField ⟨⟨0⟩, 8⟩ "tail" ⟨⟨0⟩, 10⟩).Gives 2 linkedCells ∧
    (looseCells.isSubtype ⟨⟨0⟩, 10⟩ ⟨⟨0⟩, 11⟩).outcome = .ok true ∧
    (linkedCells.isSubtype ⟨⟨0⟩, 10⟩ ⟨⟨0⟩, 11⟩).outcome = .ok false ∧
    linkedCells.isRecursive ⟨⟨0⟩, 10⟩ = looseCells.isRecursive ⟨⟨0⟩, 10⟩ ∧
    (linkedCells.isSubtype ⟨⟨0⟩, 9⟩ ⟨⟨0⟩, 11⟩).outcome = .ok true ∧
    (looseCells.isSubtype ⟨⟨0⟩, 9⟩ ⟨⟨0⟩, 11⟩).outcome = .ok true := by
  have added : (looseCells.addField ⟨⟨0⟩, 8⟩ "tail" ⟨⟨0⟩, 10⟩).Gives 2 linkedCells :=
    ⟨eq_ok_of_toOption (by decide +kernel), by decide +kernel⟩
  have before : (looseCells.isSubtype ⟨⟨0⟩, 10⟩ ⟨⟨0⟩, 11⟩).outcome = .ok true :=
    eq_ok_of_toOption (by decide +kernel)
  have after : (linkedCells.isSubtype ⟨⟨0⟩, 10⟩ ⟨⟨0⟩, 11⟩).outcome = .ok false :=
    eq_ok_of_toOption (by decide +kernel)
  have still : (linkedCells.isSubtype ⟨⟨0⟩, 9⟩ ⟨⟨0⟩, 11⟩).outcome = .ok true :=
    eq_ok_of_toOption (by decide +kernel)
  obtain ⟨-, unions, kept⟩ := addField_only_removes reachable_looseCells added
  exact ⟨added, before, after, unions ⟨⟨0⟩, 10⟩ _ rfl, still, kept _ _ still⟩

end Environment

end TypeHierarchy
