import TypeHierarchy.Source.Location

/-!
# Diagnostics

A diagnostic is an error or a warning: a primary message and further notes.  Diagnostics are ordered
by place, those with a location first, then errors before warnings, then by text.  Notes take no part
in the order, so two diagnostics that differ in their notes only are the same entry of a report.
-/

namespace TypeHierarchy

open Source

/-- Errors make the check of a report fail, warnings do not. -/
inductive Severity where
  | error
  | warning
deriving DecidableEq, Repr

namespace Severity

/-- Errors come before warnings. -/
def rank : Severity → Nat
  | error => 0
  | warning => 1

instance : Ord Severity := ⟨compareOn rank⟩

instance : Std.TransOrd Severity := inferInstanceAs (Std.TransCmp (compareOn rank))

/-- The word at the start of a rendered diagnostic. -/
def label : Severity → String
  | error => "Error"
  | warning => "Warning"

end Severity

/-- A text and, where it is known, the place in the source that it is about. -/
structure Message where
  text : String
  location : Option Location
deriving DecidableEq, Repr

/-- A location was asked of a message that has none. -/
structure MissingLocation where
  text : String
deriving DecidableEq, Repr

/-- The error in words. -/
def MissingLocation.message (missing : MissingLocation) : String :=
  s!"diagnostic message `{missing.text}` has no source location"

namespace Message

/-- The location, for a message that the caller knows to have one. -/
def getLocation (m : Message) : Except MissingLocation Location :=
  match m.location with
  | some location => .ok location
  | none => .error ⟨m.text⟩

/-- The text, its location if it has one, and the end of the line. -/
def render (m : Message) : String :=
  match m.location with
  | some location => m.text ++ " in " ++ location.render ++ "\n"
  | none => m.text ++ "\n"

end Message

/-- An error or a warning; the notes say more about it. -/
structure Diagnostic where
  severity : Severity
  primary : Message
  notes : List Message := []
deriving DecidableEq, Repr

namespace Diagnostic

/-- Zero for a diagnostic with a location, one for any other. -/
def placeRank (d : Diagnostic) : Nat := if d.primary.location.isSome then 0 else 1

/-- The order of a report. -/
def order : Diagnostic → Diagnostic → Ordering :=
  compareLex (compareOn placeRank) <| compareLex (compareOn fun d => d.primary.location) <|
    compareLex (compareOn severity) (compareOn fun d => d.primary.text)

instance : Std.TransCmp order :=
  inferInstanceAs <| Std.TransCmp <|
    compareLex (compareOn placeRank) <| compareLex (compareOn fun d => d.primary.location) <|
      compareLex (compareOn severity) (compareOn fun d => d.primary.text)

/-- Whether it is an error; everything else is a warning. -/
def isError (d : Diagnostic) : Bool := d.severity = .error

/-- The primary message behind the word for the severity, then each note on a line of its own. -/
def render (d : Diagnostic) : String :=
  d.severity.label ++ ": " ++ d.primary.render ++ String.join (d.notes.map Message.render)

end Diagnostic

end TypeHierarchy
