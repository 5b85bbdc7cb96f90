import TypeHierarchy.Proofs.Flattening

/-!
# Subsets and their bases

A subset is declared with a base, and the base may be of any shape.  That the subset is below its base
is never looked up in the declaration: it follows from reduction, where only a constant type or a
subset can be a root, or from the members of the base.  So a subset is below a base that is a constant
type or a subset, never below a record, and below a union only if it is one of the union's leaves or
the whole union reduces to one of them (`below_base_iff`).  A union of unrelated types is no supertype
of its own subsets.
-/

namespace TypeHierarchy.Environment

open scoped Classical
open Relation

variable {env : Environment} {s base y : Handle} {primitive : Bool}

/-- What it takes a base for the subset to be found below it. -/
inductive CarriesSubset (env : Environment) (base s : Handle) : Prop
  | constant {kind : Kind} (shape : env.shape base = .ok (.constant kind))
  | subset {deeper : Handle} {primitive : Bool}
      (shape : env.shape base = .ok (.subset deeper primitive))
  | union {y : Handle} (leaf : env.Leaf base y)
      (meets : y = s ∨ env.reducesTo base y = .ok true)

theorem Leaf.isUnion (leaf : env.Leaf base y) : env.IsUnion base := by
  obtain ⟨_, first, -⟩ := TransGen.head'_iff.mp leaf.1
  exact first.2.isUnion

/-- A subset of a union is below it when some leaf of the union is the subset, or has the whole union
reduce to it. -/
theorem below_union_base_iff (closed : env.Closed) (hs : env.shape s = .ok (.subset base primitive))
    (union : env.IsUnion base) :
    env.Below s base ↔ ∃ y, env.Leaf base y ∧ (y = s ∨ env.reducesTo base y = .ok true) := by
  have plain : ¬ env.IsUnion s := not_isUnion_of_shape hs rfl
  simp only [reducesTo_iff closed union.owns]
  constructor
  · intro below
    obtain ⟨y, leaf, meets⟩ := below.exists_leaf closed plain union
    refine ⟨y, leaf, ?_⟩
    rcases meets with same | reduces
    · exact .inl same.symm
    · exact ((reduces_iff hs).mp reduces).imp_left Eq.symm
  · rintro ⟨y, leaf, meets⟩
    have single : ¬ env.Recursive s := (Reduces.itself hs).not_recursive
    exact leaf.below closed (owns_of_shape hs) plain single (meets.imp Eq.symm (.subset hs))

theorem not_below_record_base {fields : List Field}
    (hs : env.shape s = .ok (.subset base primitive)) (hb : env.shape base = .ok (.record fields)) :
    ¬ env.Below s base := by
  have apart : s ≠ base := fun same => by cases hs.symm.trans (same ▸ hb)
  rw [below_iff_of_not_isUnion (not_isUnion_of_shape hb rfl), reduces_iff hs]
  rintro (same | same | reduces)
  · exact apart same
  · exact apart same
  · exact (reduces_iff hb).mp reduces

theorem below_base_iff (closed : env.Closed) (hs : env.shape s = .ok (.subset base primitive)) :
    env.Below s base ↔ env.CarriesSubset base s := by
  obtain ⟨t, hb⟩ := exists_shape (closed.owns_of_mem hs (List.mem_singleton_self base))
  cases t with
  | constant kind => exact iff_of_true (.root (.subset hs (.constant hb))) (.constant hb)
  | subset deeper primitive =>
    exact iff_of_true (.root (.subset hs (.itself hb))) (.subset hb)
  | union members =>
    rw [below_union_base_iff closed hs ⟨members, hb⟩]
    constructor
    · rintro ⟨y, leaf, meets⟩
      exact .union leaf meets
    · intro carries
      cases carries with
      | constant shape | subset shape => cases hb.symm.trans shape
      | union leaf meets => exact ⟨_, leaf, meets⟩
  | record fields =>
    refine iff_of_false (not_below_record_base hs hb) fun carries => ?_
    cases carries with
    | constant shape | subset shape => cases hb.symm.trans shape
    | union leaf => exact not_isUnion_of_shape hb rfl leaf.isUnion

/-- The check finds a subset below its base just when the base is a constant type or a subset, or is a
union that is not recursive and has a leaf that is the subset or that the whole union reduces to. -/
theorem isSubtype_base (reachable : env.Reachable)
    (hs : env.shape s = .ok (.subset base primitive)) :
    (env.isSubtype s base).outcome = .ok (decide (env.CarriesSubset base s)) := by
  have closed := reachable.closed
  have own_base := closed.owns_of_mem hs (List.mem_singleton_self base)
  rw [isSubtype_eq closed (owns_of_shape hs) own_base, Except.ok.injEq, decide_eq_decide]
  exact below_base_iff closed hs

/-- A union of the signed primitive and a subset of it, a union of the signed primitive and the symbol
primitive, a record, and a subset of each. -/
def variedBases : Environment :=
  { initial ⟨0⟩ with entries := (initial ⟨0⟩).entries ++
      #[⟨"Small", .subset ⟨⟨0⟩, 4⟩ false⟩, ⟨"Numbers", .union [⟨⟨0⟩, 4⟩, ⟨⟨0⟩, 8⟩]⟩,
        ⟨"Mixed", .union [⟨⟨0⟩, 4⟩, ⟨⟨0⟩, 6⟩]⟩, ⟨"Point", .record []⟩,
        ⟨"Few", .subset ⟨⟨0⟩, 9⟩ false⟩, ⟨"Some", .subset ⟨⟨0⟩, 10⟩ false⟩,
        ⟨"Corner", .subset ⟨⟨0⟩, 11⟩ false⟩] }

theorem reachable_variedBases : variedBases.Reachable := by
  have made : Environment.after [.declare 0 "Small" (.subset ⟨⟨0⟩, 4⟩), .declare 0 "Numbers" .union,
      .declare 0 "Mixed" .union, .declare 0 "Point" .record, .addMember 0 ⟨⟨0⟩, 9⟩ ⟨⟨0⟩, 4⟩,
      .addMember 0 ⟨⟨0⟩, 9⟩ ⟨⟨0⟩, 8⟩, .addMember 0 ⟨⟨0⟩, 10⟩ ⟨⟨0⟩, 4⟩,
      .addMember 0 ⟨⟨0⟩, 10⟩ ⟨⟨0⟩, 6⟩, .declare 0 "Few" (.subset ⟨⟨0⟩, 9⟩),
      .declare 0 "Some" (.subset ⟨⟨0⟩, 10⟩), .declare 0 "Corner" (.subset ⟨⟨0⟩, 11⟩)] =
      variedBases := by decide +kernel
  exact made ▸ reachable_after _

theorem isSubtype_variedBases :
    (variedBases.isSubtype ⟨⟨0⟩, 12⟩ ⟨⟨0⟩, 9⟩).outcome = .ok true ∧
    (variedBases.isSubtype ⟨⟨0⟩, 13⟩ ⟨⟨0⟩, 10⟩).outcome = .ok false ∧
    (variedBases.isSubtype ⟨⟨0⟩, 14⟩ ⟨⟨0⟩, 11⟩).outcome = .ok false :=
  ⟨eq_ok_of_toOption (by decide +kernel), eq_ok_of_toOption (by decide +kernel),
    eq_ok_of_toOption (by decide +kernel)⟩

/-- The first union reduces to its own leaf, the signed primitive, and so carries its subset.  No leaf
of the second union is the other's subset, and the union reduces to neither of them. -/
theorem isSubtype_base_variedBases :
    (variedBases.isSubtype ⟨⟨0⟩, 12⟩ ⟨⟨0⟩, 9⟩).outcome = .ok true ∧
    variedBases.CarriesSubset ⟨⟨0⟩, 9⟩ ⟨⟨0⟩, 12⟩ ∧
    ¬ variedBases.CarriesSubset ⟨⟨0⟩, 10⟩ ⟨⟨0⟩, 13⟩ := by
  obtain ⟨yes, no, -⟩ := isSubtype_variedBases
  have carried := isSubtype_base reachable_variedBases (s := ⟨⟨0⟩, 12⟩) rfl
  have dropped := isSubtype_base reachable_variedBases (s := ⟨⟨0⟩, 13⟩) rfl
  rw [yes, Except.ok.injEq] at carried
  rw [no, Except.ok.injEq] at dropped
  exact ⟨yes, of_decide_eq_true carried.symm, of_decide_eq_false dropped.symm⟩

/-- A subset of a union of unrelated types is not found below the union, nor a subset of a record below
the record. -/
theorem isSubtype_unrelatedMembers :
    variedBases.Reachable ∧
    variedBases.shape ⟨⟨0⟩, 13⟩ = .ok (.subset ⟨⟨0⟩, 10⟩ false) ∧
    (variedBases.isSubtype ⟨⟨0⟩, 13⟩ ⟨⟨0⟩, 10⟩).outcome = .ok false ∧
    variedBases.shape ⟨⟨0⟩, 14⟩ = .ok (.subset ⟨⟨0⟩, 11⟩ false) ∧
    (variedBases.isSubtype ⟨⟨0⟩, 14⟩ ⟨⟨0⟩, 11⟩).outcome = .ok false := by
  obtain ⟨-, mixed, corner⟩ := isSubtype_variedBases
  exact ⟨reachable_variedBases, rfl, mixed, rfl, corner⟩

end TypeHierarchy.Environment
