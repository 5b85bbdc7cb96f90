import TypeHierarchy.Classification
import TypeHierarchy.Proofs.Recursion
import TypeHierarchy.Proofs.Reduction

/-!
# Traits and attributes

What classification answers about a type of the environment, in terms of reduction and recursion: the
type is of the kinds whose constant types it reduces to (`isOfKind_eq`), and its attribute is the
first of them (`attributeOf_eq`).
-/

namespace TypeHierarchy.Environment

open scoped Classical

variable {env : Environment} {h : Handle}

/-- What it takes a type to have a trait. -/
def HasTrait (env : Environment) (h : Handle) : Trait → Prop
  | .ofKind kind => env.Reduces h (env.constantType kind)
  | .record => ∃ fields, env.shape h = .ok (.record fields)
  | .recursive => env.Recursive h

/-- The first kind, in registration order, that the type reduces to. -/
noncomputable def firstKind? (env : Environment) (h : Handle) : Option Kind :=
  Kind.all.find? fun kind => decide (env.Reduces h (env.constantType kind))

/-- The attribute of a type when the kinds are tried in the given order. -/
def attributeIn (env : Environment) (order : List Kind) (h : Handle) :
    Except Violation Attribute := do
  match ← order.findM? fun kind => env.isOfKind kind h with
  | some kind => return .ofKind kind
  | none => return .record

theorem isOfKind_eq (closed : env.Closed) (own : env.owns h = true) (kind : Kind) :
    env.isOfKind kind h = .ok (decide (env.Reduces h (env.constantType kind))) :=
  reducesTo_eq closed own _

theorem hasTrait_eq (closed : env.Closed) (own : env.owns h = true) (trait : Trait) :
    env.hasTrait h trait = .ok (decide (env.HasTrait h trait)) := by
  cases trait with
  | ofKind kind => exact isOfKind_eq closed own kind
  | recursive => exact isRecursive_eq closed own
  | record =>
    obtain ⟨s, hs⟩ := exists_shape own
    have record_iff : s.isRecord = true ↔ env.HasTrait h .record := by
      simp only [HasTrait, hs, Except.ok.injEq]
      cases s <;> simp [Shape.isRecord]
    rw [hasTrait, hs, ok_bind]
    simp only [← record_iff, Bool.decide_eq_true]
    rfl

theorem attributeIn_eq (closed : env.Closed) (own : env.owns h = true) (order : List Kind) :
    env.attributeIn order h = .ok ((order.find? fun kind =>
      decide (env.Reduces h (env.constantType kind))).elim .record .ofKind) := by
  have found : (order.findM? fun kind => env.isOfKind kind h) =
      .ok (order.find? fun kind => decide (env.Reduces h (env.constantType kind))) :=
    (findM?_congr fun kind _ => isOfKind_eq closed own kind).trans (List.findM?_pure _ _)
  rw [attributeIn, found, ok_bind]
  cases order.find? fun kind => decide (env.Reduces h (env.constantType kind)) <;> rfl

theorem attributeOf_eq (closed : env.Closed) (own : env.owns h = true) :
    env.attributeOf h = .ok ((env.firstKind? h).elim .record .ofKind) :=
  attributeIn_eq closed own Kind.all

end TypeHierarchy.Environment
