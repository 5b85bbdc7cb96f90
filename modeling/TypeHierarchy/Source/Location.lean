/-!
# Source positions and locations

A position is a line and a column, a location a stretch of a file between two positions.  Both are
ordered by their parts, from the left.
-/

namespace TypeHierarchy.Source

/-- A place in a file. -/
structure Position where
  line : UInt32 := 0
  column : UInt32 := 0
deriving DecidableEq, Repr, Inhabited

namespace Position

instance : Ord Position := ⟨compareLex (compareOn Position.line) (compareOn Position.column)⟩

instance : Std.TransOrd Position :=
  inferInstanceAs <| Std.TransCmp <|
    compareLex (compareOn Position.line) (compareOn Position.column)

theorem compare_eq (a b : Position) :
    compare a b = (compare a.line b.line).then (compare a.column b.column) := rfl

instance : Std.LawfulEqOrd Position where
  eq_of_compare {a b} h := by
    cases a
    cases b
    rw [compare_eq, Ordering.then_eq_eq] at h
    cases Std.LawfulEqOrd.eq_of_compare h.1
    cases Std.LawfulEqOrd.eq_of_compare h.2
    rfl

/-- Line and column with a colon between them. -/
def render (p : Position) : String := s!"{p.line}:{p.column}"

end Position

/-- A stretch of a file, from `start` to `stop`. -/
structure Location where
  file : String
  start : Position
  stop : Position
deriving DecidableEq, Repr

namespace Location

instance : Ord Location where
  compare := compareLex (compareOn Location.file)
    (compareLex (compareOn Location.start) (compareOn Location.stop))

instance : Std.TransOrd Location :=
  inferInstanceAs <| Std.TransCmp <| compareLex (compareOn Location.file)
    (compareLex (compareOn Location.start) (compareOn Location.stop))

theorem compare_eq (a b : Location) :
    compare a b = (compare a.file b.file).then
      ((compare a.start b.start).then (compare a.stop b.stop)) := rfl

instance : Std.LawfulEqOrd Location where
  eq_of_compare {a b} h := by
    cases a
    cases b
    rw [compare_eq, Ordering.then_eq_eq, Ordering.then_eq_eq] at h
    cases Std.LawfulEqOrd.eq_of_compare h.1
    cases Std.LawfulEqOrd.eq_of_compare h.2.1
    cases Std.LawfulEqOrd.eq_of_compare h.2.2
    rfl

/-- The stretch of no length at a position. -/
def point (file : String) (p : Position) : Location := ⟨file, p, p⟩

/-- The file and where the stretch starts; where it stops is not shown. -/
def render (l : Location) : String := l.file ++ ":" ++ l.start.render

end Location

end TypeHierarchy.Source
