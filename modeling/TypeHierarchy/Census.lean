import TypeHierarchy.Traversal

/-!
# Censuses

A census counts, from one type on, the types that can be reached through members of unions and fields
of records.  A type counts one, a union or record also what its members or field types count; a type
met again counts what was remembered for it, which is nothing while it is still being counted.
Counts are 64-bit words and wrap.
-/

namespace TypeHierarchy

/-- What a census finds. -/
structure Census where
  total : UInt64
  /-- The types in the order in which they were entered. -/
  visits : List Handle
  /-- The count remembered for each of them. -/
  counts : Memo UInt64

namespace Environment

/-- Enters a type and counts it with its successors, in order. -/
def censusVisitor : Visitor (StateT (List Handle) (Except Violation)) UInt64 :=
  fun visit h shape => do
    modifyThe (List Handle) (· ++ [h])
    (shape.successors true).foldlM (fun total next => return total + (← visit next)) 1

/-- The census from one type on. -/
def census (env : Environment) (h : Handle) : Except Violation Census := do
  let ((total, counts), visits) ← (env.traverse 0 censusVisitor h).run []
  return ⟨total, visits, counts⟩

end Environment

end TypeHierarchy
