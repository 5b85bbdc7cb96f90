import TypeHierarchy.Recursion
import TypeHierarchy.Reduction

/-!
# Classifying types

A type is of a kind when it reduces to the constant type of that kind.  Its attribute is the first
kind it is of, in registration order, or `record` when there is none.
-/

namespace TypeHierarchy

/-- A property that types are asked for. -/
inductive Trait where
  | ofKind (kind : Kind)
  | record
  | recursive
deriving DecidableEq, Repr

namespace Environment

variable (env : Environment)

/-- Whether a type reduces to the constant type of a kind. -/
def isOfKind (kind : Kind) (h : Handle) : Except Violation Bool :=
  env.reducesTo h (env.constantType kind)

/-- Whether a type has a trait.  The traits do not exclude each other: a record can be recursive. -/
def hasTrait (h : Handle) : Trait → Except Violation Bool
  | .ofKind kind => env.isOfKind kind h
  | .record => return (← env.shape h).isRecord
  | .recursive => env.isRecursive h

/-- Whether all types of a finite, nonempty set have the trait.  The universal set never does. -/
def allHaveTrait (types : TypeSet) (trait : Trait) : Except Violation Bool :=
  match types with
  | .all => return false
  | .finite handles =>
    if handles.isEmpty then return false else handles.toList.allM fun h => env.hasTrait h trait

/-- Whether some type of the set has the trait.  The universal set always holds one. -/
def someHasTrait (types : TypeSet) (trait : Trait) : Except Violation Bool :=
  match types with
  | .all => return true
  | .finite handles => handles.toList.anyM fun h => env.hasTrait h trait

/-- The first kind that the type is of, in registration order. -/
def attributeOf (h : Handle) : Except Violation Attribute := do
  match ← Kind.all.findM? fun kind => env.isOfKind kind h with
  | some kind => return .ofKind kind
  | none => return .record

end Environment

end TypeHierarchy
