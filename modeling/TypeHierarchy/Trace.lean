import TypeHierarchy.Violation

/-!
# Traces

Every change of an environment and every relation query leaves lines behind: the spans it entered and
left, and events between them.  `Traced α` is the outcome of such a computation together with its
lines, so a trace is a value like the answer itself.  A violation ends the computation and keeps the
lines up to it.
-/

namespace TypeHierarchy

namespace Trace

/-- How fine the lines are that a reader asks for. -/
inductive Level where
  | debug
  | trace
deriving DecidableEq, Repr

/-- A query that brackets its lines. -/
inductive Span where
  | subtypeCheck
  | leastSupertypes
  | greatestSubtypes
deriving DecidableEq, Repr

/-- The word for the span in its first and last line. -/
def Span.name : Span → String
  | subtypeCheck => "is_subtype_of"
  | leastSupertypes => "least_common_supertypes"
  | greatestSubtypes => "greatest_common_subtypes"

/-- Something that happened, with what is worth telling about it. -/
inductive Event where
  | registered (name label : String)
  | addedMember (union member : Nat)
  | addingField (record : Nat) (field : String)
  | addedField (record : Nat)
  | recursiveOperand
  | subtypeChecked (result : Bool)
  | supertypesCollected (candidates : Nat)
  | subtypesCollected (candidates : Nat)
deriving DecidableEq, Repr

namespace Event

/-- Completed changes of an environment are debug events, all else is finer. -/
def level : Event → Level
  | registered .. | addedMember .. | addedField .. => .debug
  | _ => .trace

/-- The part of the program that an event is filed under. -/
def target : Event → String
  | registered .. | addedMember .. | addingField .. | addedField .. => "strata_solver::environment"
  | recursiveOperand | subtypeChecked .. => "strata_solver::relations"
  | supertypesCollected .. | subtypesCollected .. => "strata_solver::lattice"

/-- The event in words, followed by its data. -/
def text : Event → String
  | registered name label => s!"registered type name={name} kind={label}"
  | addedMember union member => s!"added union member union={union} member={member}"
  | addingField record field => s!"adding record field record={record} field={field}"
  | addedField record => s!"added record field record={record}"
  | recursiveOperand => "recursive type involved, no subtype relation"
  | subtypeChecked result => s!"subtype check finished result={result}"
  | supertypesCollected candidates => s!"collected common supertypes candidates={candidates}"
  | subtypesCollected candidates => s!"collected common subtypes candidates={candidates}"

end Event

/-- The word for a level at the start of an event's line. -/
def Level.name : Level → String
  | debug => "DEBUG"
  | trace => "TRACE"

/-- One line of a trace; a span is entered with the names of its two types. -/
inductive Line where
  | enter (span : Span) (a b : String)
  | leave (span : Span)
  | event (event : Event)
deriving DecidableEq, Repr

namespace Line

/-- Spans are lines of the finest level. -/
def level : Line → Level
  | event e => e.level
  | _ => .trace

/-- Whether a reader who asked for `wanted` sees the line. -/
def shownAt (wanted : Level) (line : Line) : Bool :=
  wanted = .trace || line.level = .debug

/-- The line as it is written. -/
def render : Line → String
  | enter span a b => s!"> {span.name} a={a} b={b}"
  | leave span => s!"< {span.name}"
  | event e => s!"{e.level.name} {e.target}: {e.text}"

end Line

end Trace

open Trace

/-- The outcome of a computation and the lines it left behind. -/
structure Traced (α : Type) where
  outcome : Except Violation α
  lines : List Line

namespace Traced

variable {α β : Type}

/-- Stops with a violation. -/
def fail (violation : Violation) : Traced α := ⟨.error violation, []⟩

/-- Leaves one event behind. -/
def emit (event : Event) : Traced Unit := ⟨.ok (), [.event event]⟩

/-- Brackets the lines of `body`; the span is left however `body` ends. -/
def within (span : Span) (a b : String) (body : Traced α) : Traced α :=
  ⟨body.outcome, .enter span a b :: body.lines ++ [.leave span]⟩

instance : Monad Traced where
  pure a := ⟨.ok a, []⟩
  bind x f :=
    match x.outcome with
    | .ok a =>
      let y := f a
      ⟨y.outcome, x.lines ++ y.lines⟩
    | .error violation => ⟨.error violation, x.lines⟩

/-- Untraced computations leave no lines. -/
instance : MonadLift (Except Violation) Traced := ⟨fun outcome => ⟨outcome, []⟩⟩

@[simp] theorem outcome_pure (a : α) : (pure a : Traced α).outcome = .ok a := rfl

@[simp] theorem outcome_bind (x : Traced α) (f : α → Traced β) :
    (x >>= f).outcome = x.outcome >>= fun a => (f a).outcome := by
  obtain ⟨_ | _, _⟩ := x <;> rfl

@[simp] theorem lines_bind (x : Traced α) (f : α → Traced β) :
    (x >>= f).lines = x.lines ++ x.outcome.toOption.elim [] fun a => (f a).lines := by
  obtain ⟨_ | _, lines⟩ := x
  · exact (List.append_nil lines).symm
  · rfl

@[simp] theorem outcome_within (span : Span) (a b : String) (body : Traced α) :
    (body.within span a b).outcome = body.outcome := rfl

@[simp] theorem lines_within (span : Span) (a b : String) (body : Traced α) :
    (body.within span a b).lines = .enter span a b :: body.lines ++ [.leave span] := rfl

instance : LawfulMonad Traced := LawfulMonad.mk' Traced
  (fun x => by obtain ⟨_ | _, _⟩ := x <;> simp [Functor.map])
  (fun _ _ => rfl)
  (fun x f g => by
    obtain ⟨_ | a, _⟩ := x
    · rfl
    · cases h : (f a).outcome <;> simp [h, bind])

end Traced

end TypeHierarchy
