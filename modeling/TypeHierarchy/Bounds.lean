import TypeHierarchy.Subtyping

/-!
# Bounds of two types

The least common supertypes of two types are the minimal ones among all their common supertypes, the
greatest common subtypes the maximal ones among the common subtypes found in the members of a union.
There may be none or several; of several no one is strictly below another.
-/

namespace TypeHierarchy

/-- Which way a bound lies. -/
inductive Bound where
  | least
  | greatest
deriving DecidableEq, Repr

namespace Environment

variable (env : Environment)

/-- Whether the first type is a subtype of the second and not the other way round.  The second check
is made only where the first says yes. -/
def strictlyBelow (a b : Handle) : Traced Bool := do
  if a = b then return false
  if ← env.isSubtype a b then return !(← env.isSubtype b a)
  return false

/-- Whether `other` is a better bound than `h`. -/
def outranks (bound : Bound) (other h : Handle) : Traced Bool :=
  match bound with
  | .least => env.strictlyBelow other h
  | .greatest => env.strictlyBelow h other

/-- The candidates that no other candidate outranks. -/
def antichain (bound : Bound) (candidates : List Handle) : Traced HandleSet := do
  let kept ← candidates.filterM fun h =>
    return !(← candidates.anyM fun other => env.outranks bound other h)
  return .ofList kept

/-- The minimal common supertypes.  Of two types of which one is below the other it is the upper one;
otherwise all types of the environment are looked at. -/
def leastCommonSupertypes (a b : Handle) : Traced HandleSet := do
  env.requireOwn .foreignBoundQuery a
  env.requireOwn .foreignBoundQuery b
  Traced.within .leastSupertypes (← env.name a) (← env.name b) do
    if a = b then return .singleton a
    if ← env.isSubtype a b then return .singleton b
    if ← env.isSubtype b a then return .singleton a
    let candidates ← env.handles.filterM fun h => env.isSubtype a h <&&> env.isSubtype b h
    Traced.emit (.supertypesCollected candidates.length)
    env.antichain .least candidates

/-- Puts every member below `bound` aside, and looks for such members inside the others. -/
def memberVisitor (bound : Handle) : Visitor (StateT (List Handle) Traced) Unit :=
  fun visit _ shape => shape.members.forM fun member => do
    if ← env.isSubtype member bound then
      modifyThe (List Handle) (member :: ·)
    else
      visit member

/-- The outermost types below `bound` among the members of a union, members of members included. -/
def membersBelow (union bound : Handle) : Traced HandleSet := do
  let (_, found) ← (env.traverse () (env.memberVisitor bound) union).run []
  return .ofList found

/-- The maximal common subtypes.  Of two types of which one is below the other it is the lower one.
Otherwise there are none unless both are unions, and then the members of the first one are searched.
-/
def greatestCommonSubtypes (a b : Handle) : Traced HandleSet := do
  env.requireOwn .foreignBoundQuery a
  env.requireOwn .foreignBoundQuery b
  Traced.within .greatestSubtypes (← env.name a) (← env.name b) do
    if a = b then return .singleton a
    if ← env.isSubtype a b then return .singleton a
    if ← env.isSubtype b a then return .singleton b
    if !((← env.shape a).isUnion && (← env.shape b).isUnion) then return ∅
    let candidates ← env.membersBelow a b
    Traced.emit (.subtypesCollected candidates.size)
    env.antichain .greatest candidates.toList

/-- The bound of two types. -/
def pairBound (bound : Bound) (a b : Handle) : Traced HandleSet :=
  match bound with
  | .least => env.leastCommonSupertypes a b
  | .greatest => env.greatestCommonSubtypes a b

end Environment

end TypeHierarchy
