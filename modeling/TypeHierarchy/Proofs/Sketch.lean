import TypeHierarchy.Proofs.Duplicate

/-!
# Types in terms of names

A sketch says what a type is made of with names in the place of handles, so types of different
environments can be compared.  Whether a subset is a primitive, and the kind of a constant type, are
not in it: in an arranged environment these can be told from the type's own name.
-/

namespace TypeHierarchy

/-- What a type is made of, in names. -/
inductive Sketch where
  /-- A constant type, or a subset of the named type. -/
  | leaf (base : Option String)
  | union (members : List String)
  | record (fields : List (String × String))
deriving DecidableEq, Repr

/-- What shows of a type in which bases do not. -/
def Sketch.withoutBase : Sketch → Sketch
  | leaf _ => leaf none
  | sketch => sketch

/-- The sketch of a shape, with names for all handles. -/
def Shape.sketch (text : Handle → String) : Shape → Sketch
  | constant _ => .leaf none
  | subset base _ => .leaf (some (text base))
  | union members => .union (members.map text)
  | record fields => .record (fields.map fun field => (field.name, text field.type))

namespace Environment

/-- The sketch of a type; all types it refers to are looked up. -/
def sketch (env : Environment) (h : Handle) : Except Violation Sketch := do
  match ← env.shape h with
  | .constant _ => return .leaf none
  | .subset base _ => return .leaf (some (← env.name base))
  | .union members => return .union (← members.mapM env.name)
  | .record fields =>
    return .record (← fields.mapM fun field => return (field.name, ← env.name field.type))

variable {env : Environment} {h : Handle} {s : Shape} {text : Handle → String}

theorem sketch_eq (closed : env.Closed)
    (named : ∀ h, env.owns h = true → env.name h = .ok (text h)) (hs : env.shape h = .ok s) :
    env.sketch h = .ok (s.sketch text) := by
  have known (r : Handle) (mem : r ∈ s.references) : env.name r = .ok (text r) :=
    named r (closed.owns_of_mem hs mem)
  rw [sketch, hs, ok_bind]
  cases s with
  | constant kind => rfl
  | subset base primitive =>
    simp only [known base List.mem_cons_self]
    rfl
  | union members =>
    have names : members.mapM env.name = .ok (members.map text) :=
      (mapM_congr known).trans List.mapM_pure
    simp only [names]
    rfl
  | record fields =>
    have pairs : (fields.mapM fun field => do return (field.name, ← env.name field.type)) =
        .ok (fields.map fun field => (field.name, text field.type)) := by
      refine (mapM_congr fun field mem => ?_).trans List.mapM_pure
      rw [known field.type (List.mem_map_of_mem mem)]
      rfl
    simp only [pairs]
    rfl

end Environment

end TypeHierarchy
