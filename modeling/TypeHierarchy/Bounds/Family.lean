import TypeHierarchy.Bounds

/-!
# Bounds of families

The bound of a set is built up type by type, and ends as soon as nothing is left.  The pairwise bound
of two sets collects the bounds of all pairs; there the universal set leaves the other side as it is.
-/

namespace TypeHierarchy.Environment

variable (env : Environment)

/-- The best among the bounds of all pairs from two lists. -/
def crossBound (bound : Bound) (lefts rights : List Handle) : Traced HandleSet := do
  let bounds ← lefts.flatMapM fun left =>
    rights.flatMapM fun right => return (← env.pairBound bound left right).toList
  env.antichain bound (SortedSet.ofList bounds : HandleSet).toList

/-- Takes further types into a bound. -/
def extendBound (bound : Bound) : (running : HandleSet) → List Handle → Traced HandleSet
  | running, [] => return running
  | running, next :: rest => do
    let running ← env.crossBound bound running.toList [next]
    if running.isEmpty then return running else extendBound bound running rest

/-- The bound of all types of a set.  The universal set and the empty one have none, and a single type
is its own bound. -/
def setBound (bound : Bound) (types : TypeSet) : Traced HandleSet :=
  match types with
  | .all => return ∅
  | .finite handles =>
    match handles.toList with
    | [] => return ∅
    | first :: rest => env.extendBound bound (.singleton first) rest

/-- The bounds of all pairs from two sets. -/
def pairwiseBound (bound : Bound) (left right : TypeSet) : Traced TypeSet := do
  if left.isEmpty || right.isEmpty then return .empty
  match left, right with
  | .all, _ => return right
  | _, .all => return left
  | .finite lefts, .finite rights =>
    return .finite (← env.crossBound bound lefts.toList rights.toList)

end TypeHierarchy.Environment
