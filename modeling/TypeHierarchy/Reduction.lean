import TypeHierarchy.Traversal

/-!
# Reduction to a root

A constant type reduces to itself only.  A subset reduces to itself and to whatever its base reduces
to.  A union reduces to a root when it has members and all of them do.  A record reduces to nothing.
-/

namespace TypeHierarchy.Environment

/-- One step towards `root`; the types a type stands on are asked through `visit`. -/
def reductionVisitor (root : Handle) : Visitor (Except Violation) Bool
  | _, h, .constant _ => return h = root
  | visit, h, .subset base _ => if h = root then return true else visit base
  | visit, _, .union members => if members.isEmpty then return false else members.allM visit
  | _, _, .record _ => return false

/-- Whether every value of the type is a value of `root`.  A type that comes back to itself before it
reaches `root` does not reduce.  `root` may belong to any environment. -/
def reducesTo (env : Environment) (h root : Handle) : Except Violation Bool := do
  let (answer, _) ← env.traverse false (reductionVisitor root) h
  return answer

end TypeHierarchy.Environment
