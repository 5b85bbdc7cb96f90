import TypeHierarchy.Traversal

/-!
# Recursive types

A union is recursive when it can be reached from itself through members of unions, a record when it
can be reached from itself through members of unions and fields of records.  Constant types and
subsets are never recursive, and no path goes through the base of a subset.
-/

namespace TypeHierarchy.Environment

/-- Whether some path from the type arrives at `target`. -/
def cycleVisitor (target : Handle) (throughFields : Bool) : Visitor (Except Violation) Bool :=
  fun visit _ shape => (shape.successors throughFields).anyM fun next =>
    if next = target then return true else visit next

/-- Whether a path of at least one step leads from the type back to it.  The start itself is not
remembered, so that the way back to it is seen. -/
def isRecursive (env : Environment) (h : Handle) : Except Violation Bool := do
  let shape ← env.shape h
  let visitor := cycleVisitor h shape.isRecord
  (visitor (env.visitOnce false visitor env.size) h shape).run' ∅

end TypeHierarchy.Environment
