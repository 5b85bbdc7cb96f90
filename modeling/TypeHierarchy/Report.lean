import TypeHierarchy.Diagnostic
import TypeHierarchy.SortedSet

/-!
# Reports

A report collects diagnostics in their order and holds no two that are equal in it; the first one
added stays.  Under `noWarn` warnings are not taken in at all.
-/

namespace TypeHierarchy

open Source

/-- What a report leaves out. -/
structure ReportOptions where
  noWarn : Bool := false
deriving DecidableEq, Repr, Inhabited

/-- The diagnostics collected so far.  The options do not change while it is filled. -/
structure Report where
  options : ReportOptions := {}
  diagnostics : SortedSet Diagnostic Diagnostic.order := ∅

namespace Report

/-- The report has errors, so the run cannot go on. -/
structure Failure where
  errors : Nat
deriving DecidableEq, Repr

/-- The failure in words. -/
def Failure.message (failure : Failure) : String :=
  s!"{failure.errors} errors generated, evaluation aborted"

/-- Whether the report takes a diagnostic in. -/
def admits (r : Report) (d : Diagnostic) : Bool := d.isError || !r.options.noWarn

/-- Takes a diagnostic in, unless it is a warning that is not wanted or one equal in the order is
there already. -/
def add (r : Report) (d : Diagnostic) : Report :=
  if r.admits d then { r with diagnostics := r.diagnostics.insert d } else r

/-- Adds an error without notes. -/
def addError (r : Report) (text : String) (location : Option Location) : Report :=
  r.add ⟨.error, ⟨text, location⟩, []⟩

/-- Adds a warning without notes. -/
def addWarning (r : Report) (text : String) (location : Option Location) : Report :=
  r.add ⟨.warning, ⟨text, location⟩, []⟩

/-- The diagnostics in their order. -/
def toList (r : Report) : List Diagnostic := r.diagnostics.toList

/-- How many diagnostics there are. -/
def size (r : Report) : Nat := r.diagnostics.size

/-- How many diagnostics have the severity. -/
def count (r : Report) (severity : Severity) : Nat :=
  r.toList.countP fun d => d.severity = severity

/-- How many errors there are. -/
def errorCount (r : Report) : Nat := r.count .error

/-- How many warnings there are. -/
def warningCount (r : Report) : Nat := r.count .warning

/-- Fails when there is an error. -/
def check (r : Report) : Except Failure Unit :=
  match r.errorCount with
  | 0 => .ok ()
  | errors => .error ⟨errors⟩

/-- All diagnostics, one after the other. -/
def render (r : Report) : String := String.join (r.toList.map Diagnostic.render)

/-! ## Ending the process -/

/-- How a process that stops at errors ends. -/
structure Exit where
  code : Nat := 0
  stderr : String := ""
deriving DecidableEq, Repr

/-- Bright red on a terminal that shows colour. -/
def emphasise (color : Bool) (text : String) : String :=
  if color then "\x1b[91m" ++ text ++ "\x1b[0m" else text

/-- With errors the report is written and the process ends with code 1. -/
def exitIfErrors (r : Report) (color : Bool) : Exit :=
  match r.check with
  | .ok () => {}
  | .error failure => ⟨1, r.render ++ emphasise color failure.message ++ "\n"⟩

end Report

end TypeHierarchy
