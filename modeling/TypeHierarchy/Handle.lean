/-!
# Handles

A handle names one type: the environment it belongs to, and its place there in registration order.
Handles are ordered by environment and then by place.
-/

namespace TypeHierarchy

/-- Identity of an environment; no two environments of a workspace share one. -/
structure EnvId where
  number : Nat
deriving DecidableEq, Repr

/-- A place in an environment.  A handle says nothing of whether a type stands there. -/
structure Handle where
  env : EnvId
  index : Nat
deriving DecidableEq, Repr

namespace Handle

instance : Ord Handle := ⟨compareLex (compareOn fun h => h.env.number) (compareOn Handle.index)⟩

instance : Std.TransOrd Handle :=
  inferInstanceAs <| Std.TransCmp <|
    compareLex (compareOn fun h : Handle => h.env.number) (compareOn Handle.index)

theorem compare_eq (a b : Handle) :
    compare a b = (compare a.env.number b.env.number).then (compare a.index b.index) := rfl

instance : Std.LawfulEqOrd Handle where
  eq_of_compare {a b} h := by
    obtain ⟨⟨m⟩, i⟩ := a
    obtain ⟨⟨n⟩, j⟩ := b
    rw [compare_eq, Ordering.then_eq_eq] at h
    cases Nat.compare_eq_eq.mp h.1
    cases Nat.compare_eq_eq.mp h.2
    rfl

end Handle

end TypeHierarchy
