import TypeHierarchy.Classification

/-!
# Qualifiers

A qualifier spells out the structure of a type.  Its head is the attribute's letter and the name; a
union adds the qualifiers of its members in brackets, a record its fields in braces.  A type that is
met inside its own qualifier is written as its head.
-/

namespace TypeHierarchy.Environment

variable (env : Environment)

/-- The head of a qualifier: `letter:name`. -/
def qualifierHead (h : Handle) : Except Violation String := do
  let tag := (← env.attributeOf h).tag
  let name ← env.name h
  return s!"{tag}:{name}"

/-- Spells one type; until it is done, the head stands for it. -/
def qualifierVisitor : Visitor (Except Violation) String := fun visit h shape => do
  let head ← env.qualifierHead h
  modify (·.insert h head)
  match shape with
  | .union members => return head ++ "[" ++ ",".intercalate (← members.mapM visit) ++ "]"
  | .record fields =>
    let texts ← fields.mapM fun field => return field.name ++ "#" ++ (← visit field.type)
    return head ++ "\x7b" ++ ",".intercalate texts ++ "\x7d"
  | _ => return head

/-- The qualifier of a type.  The empty text that the traversal starts with is always overwritten by
a head. -/
def qualifier (h : Handle) : Except Violation String := do
  let (text, _) ← env.traverse "" env.qualifierVisitor h
  return text

end TypeHierarchy.Environment
