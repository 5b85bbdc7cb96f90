import TypeHierarchy.Environment

/-!
# Rendering

The texts in which types, sets and whole environments are shown.  Sets and environments list their
types by name, in the order of code points.
-/

namespace TypeHierarchy

/-- The order of texts by code points. -/
def textLE (a b : String) : Bool := (compare a b).isLE

namespace Environment

variable (env : Environment)

/-- A type as it would be declared. -/
def showType (h : Handle) : Except Violation String := do
  let name ← env.name h
  match ← env.shape h with
  | .constant _ => return name
  | .subset base _ => return name ++ " <: " ++ (← env.name base)
  | .union members => return name ++ " = " ++ " | ".intercalate (← members.mapM env.name)
  | .record [] => return name ++ " = ()"
  | .record fields =>
    let texts ← fields.mapM fun field => return field.name ++ " : " ++ (← env.name field.type)
    return name ++ " = ( " ++ " , ".intercalate texts ++ " )"

/-- A set as the list of its names; the universal set is not listed. -/
def showSet : TypeSet → Except Violation String
  | .all => return "\x7b - all types - \x7d"
  | .finite handles => do
    let names ← handles.toList.mapM env.name
    return "\x7b" ++ ",".intercalate (names.mergeSort textLE) ++ "\x7d"

/-- All types, one a line. -/
def showAll : Except Violation String := do
  let named ← env.handles.mapM fun h => return (← env.name h, h)
  let sorted := named.mergeSort fun a b => textLE a.1 b.1
  let lines ← sorted.mapM fun (_, h) => return "\t" ++ (← env.showType h) ++ "\n"
  return "Types:\n" ++ String.join lines

end Environment

end TypeHierarchy
