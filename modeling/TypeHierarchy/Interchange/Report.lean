import TypeHierarchy.Interchange.Value
import TypeHierarchy.Report

/-!
# Exchanging positions, options and diagnostics

A structure is read from an object, in which unknown fields are ignored, or from the array of its
fields in order.  It is written as an object, without the fields that hold nothing.
-/

namespace TypeHierarchy

open Interchange

namespace Source

/-- Reads a position: `line` and `column`, both required. -/
def Position.ofValue? : Value → Option Position
  | .array [line, column] => return ⟨← line.word?, ← column.word?⟩
  | v => do return ⟨← (← v.field? "line").word?, ← (← v.field? "column").word?⟩

/-- Writes a position as an object. -/
def Position.toValue (p : Position) : Value :=
  .object [("line", .ofNat p.line.toNat), ("column", .ofNat p.column.toNat)]

/-- Reads a location: `file`, `start` and `end`, all required. -/
def Location.ofValue? : Value → Option Location
  | .array [file, start, stop] => do
    return ⟨← file.string?, ← Position.ofValue? start, ← Position.ofValue? stop⟩
  | v => do
    return ⟨← (← v.field? "file").string?, ← Position.ofValue? (← v.field? "start"),
      ← Position.ofValue? (← v.field? "end")⟩

/-- Writes a location as an object; the position where it stops is called `end`. -/
def Location.toValue (l : Location) : Value :=
  .object [("file", .string l.file), ("start", l.start.toValue), ("end", l.stop.toValue)]

end Source

/-- Reads report options; `noWarn` may be left out, and is off then. -/
def ReportOptions.ofValue? : Value → Option ReportOptions
  | .array [] => some {}
  | .array [noWarn] => return ⟨← noWarn.bool?⟩
  | .object fields =>
    match fields.lookup "noWarn" with
    | some noWarn => return ⟨← noWarn.bool?⟩
    | none => some {}
  | _ => none

/-- Writes report options; `noWarn` is written even when it is off. -/
def ReportOptions.toValue (options : ReportOptions) : Value :=
  .object [("noWarn", .bool options.noWarn)]

/-- Writes a message, without the location if there is none. -/
def Message.toValue (m : Message) : Value :=
  .object (("message", .string m.text) ::
    m.location.toList.map fun location => ("location", location.toValue))

/-- Writes a diagnostic, without the notes if there are none. -/
def Diagnostic.toValue (d : Diagnostic) : Value :=
  let notes := if d.notes.isEmpty then [] else [("additional", .array (d.notes.map Message.toValue))]
  .object ([("kind", .string d.severity.label), ("primary", d.primary.toValue)] ++ notes)

end TypeHierarchy
