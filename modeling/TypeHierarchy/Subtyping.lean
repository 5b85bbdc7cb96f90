import TypeHierarchy.Recursion
import TypeHierarchy.Reduction
import TypeHierarchy.Trace

/-!
# Subtyping

A type is a subtype of every type it reduces to.  Beyond that a recursive type is related to nothing
but itself, and a type is below a union when each of its members is (if it is a union too) or when it
is below one of the union's members.

A nested check is about a member of one of the two unions at hand, and neither is recursive, so no
union comes up twice on one side: nesting never goes deeper than two checks for each union and one
more.
-/

namespace TypeHierarchy.Environment

variable (env : Environment)

/-- One check; the questions about members are put to `nested`. -/
def subtypeStep (nested : Handle → Handle → Traced Bool) (a b : Handle) : Traced Bool := do
  if a = b then return true
  if ← env.reducesTo a b then return true
  if ← env.isRecursive a <||> env.isRecursive b then
    Traced.emit .recursiveOperand
    return false
  match ← env.shape b with
  | .union others =>
    match ← env.shape a with
    | .union members => members.allM fun member => nested member b
    | _ => others.anyM fun other => nested a other
  | _ => return false

/-- The subtype check with at most `budget` checks nested in each other. -/
def isSubtypeWithin : (budget : Nat) → (a b : Handle) → Traced Bool
  | 0, _, _ => Traced.fail .budgetExhausted
  | budget + 1, a, b => do
    env.requireOwn .foreignSubtypeQuery a
    env.requireOwn .foreignSubtypeQuery b
    Traced.within .subtypeCheck (← env.name a) (← env.name b) do
      let result ← env.subtypeStep (isSubtypeWithin budget) a b
      Traced.emit (.subtypeChecked result)
      return result

/-- Whether `a` is a subtype of `b`. -/
def isSubtype (a b : Handle) : Traced Bool :=
  env.isSubtypeWithin (2 * env.unionCount + 1) a b

/-- Whether every type of a finite set is a subtype of `b`. -/
def areSubtypes (types : TypeSet) (b : Handle) : Traced Bool :=
  match types with
  | .all => Traced.fail .universalEnumeration
  | .finite handles => handles.toList.allM fun a => env.isSubtype a b

end TypeHierarchy.Environment
