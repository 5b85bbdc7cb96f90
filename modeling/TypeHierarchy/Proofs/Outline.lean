import TypeHierarchy.Proofs.Outcome
import TypeHierarchy.Traversal

/-!
# Outlines of traces

A trace is a flat list of lines.  It is properly bracketed when it consists of the lines of an
`Outline`, a tree of events and of spans with everything inside them: then every span that is entered
is left again, the innermost one first.  No two outlines have the same lines
(`Outline.lines_injective`), so the events that stand directly in a span of a bracketed trace, and
the spans at any depth in it, are determined by its lines.

What is claimed of the lines of a program mostly holds of no lines at all and of two traces one after
the other.  For such a property `Composes` has one rule for each way in which programs are put
together, and none of them asks how the parts end.
-/

namespace TypeHierarchy

namespace Trace

/-- Events and spans one after the other. -/
inductive Outline where
  | nil
  | event (event : Event) (rest : Outline)
  | span (span : Span) (a b : String) (body rest : Outline)
deriving DecidableEq, Repr

/-- A span with the names it was entered with and all that happened in it. -/
structure Block where
  span : Span
  a : String
  b : String
  body : Outline

namespace Outline

/-- The lines of an outline: each span is entered, and left when its body is over. -/
def lines : Outline → List Line
  | nil => []
  | event e rest => .event e :: rest.lines
  | span s a b body rest => .enter s a b :: (body.lines ++ .leave s :: rest.lines)

/-- The events outside of all spans. -/
def events : Outline → List Event
  | nil => []
  | event e rest => e :: rest.events
  | span _ _ _ _ rest => rest.events

/-- The spans at any depth. -/
def blocks : Outline → List Block
  | nil => []
  | event _ rest => rest.blocks
  | span s a b body rest => ⟨s, a, b, body⟩ :: (body.blocks ++ rest.blocks)

/-- One outline behind the other. -/
def append : Outline → Outline → Outline
  | nil, other => other
  | event e rest, other => event e (rest.append other)
  | span s a b body rest, other => span s a b body (rest.append other)

@[simp] theorem lines_append (first second : Outline) :
    (first.append second).lines = first.lines ++ second.lines := by
  induction first with
  | nil => rfl
  | event e rest ih => simp only [append, lines, ih, List.cons_append]
  | span s a b body rest _ ih => simp only [append, lines, ih, List.cons_append, List.append_assoc]

@[simp] theorem events_append (first second : Outline) :
    (first.append second).events = first.events ++ second.events := by
  induction first with
  | nil => rfl
  | event e rest ih => simp only [append, events, ih, List.cons_append]
  | span s a b body rest _ ih => simp only [append, events, ih]

@[simp] theorem blocks_append (first second : Outline) :
    (first.append second).blocks = first.blocks ++ second.blocks := by
  induction first with
  | nil => rfl
  | event e rest ih => simp only [append, blocks, ih]
  | span s a b body rest _ ih => simp only [append, blocks, ih, List.cons_append, List.append_assoc]

/-- Nothing follows, or the end of a span that was entered before. -/
inductive Ends : List Line → Prop
  | nil : Ends []
  | leave (s : Span) (rest : List Line) : Ends (.leave s :: rest)

/-- Where an outline ends can be read off the lines. -/
theorem lines_append_inj {o o' : Outline} {rest rest' : List Line} (ends : Ends rest)
    (ends' : Ends rest') (same : o.lines ++ rest = o'.lines ++ rest') : o = o' ∧ rest = rest' := by
  induction o generalizing o' rest rest' with
  | nil =>
    cases o' with
    | nil => exact ⟨rfl, same⟩
    | event | span =>
      rw [lines, lines, List.nil_append] at same
      cases ends <;> cases same
  | event e after ih =>
    cases o' with
    | nil =>
      rw [lines, lines, List.nil_append] at same
      cases ends' <;> cases same
    | event e' after' =>
      obtain ⟨head, tail⟩ := List.cons.inj same
      obtain ⟨rfl, rfl⟩ := ih ends ends' tail
      cases head
      exact ⟨rfl, rfl⟩
    | span => cases same
  | span s a b body after ih_body ih =>
    cases o' with
    | nil =>
      rw [lines, lines, List.nil_append] at same
      cases ends' <;> cases same
    | event => cases same
    | span s' a' b' body' after' =>
      simp only [lines, List.cons_append, List.append_assoc] at same
      obtain ⟨head, tail⟩ := List.cons.inj same
      -- Both bodies are followed by the end of their span.
      obtain ⟨rfl, rest_eq⟩ := ih_body (.leave ..) (.leave ..) tail
      obtain ⟨rfl, rfl⟩ := ih ends ends' (List.cons.inj rest_eq).2
      cases head
      exact ⟨rfl, rfl⟩

theorem lines_injective : Function.Injective lines := by
  intro o o' same
  have same' : o.lines ++ [] = o'.lines ++ [] := by rw [same]
  exact (lines_append_inj .nil .nil same').1

end Outline

/-! ## Lines of programs -/

/-- The property holds of no lines, and of two traces one after the other. -/
structure Composes (P : List Line → Prop) : Prop where
  nil : P []
  append : ∀ {first second : List Line}, P first → P second → P (first ++ second)

namespace Composes

variable {P : List Line → Prop} {α β σ τ ρ : Type} {l : List α}

theorem bind (composes : Composes P) {x : Traced α} {f : α → Traced β} (first : P x.lines)
    (second : ∀ a, P (f a).lines) : P (x >>= f).lines := by
  rw [Traced.lines_bind]
  refine composes.append first ?_
  cases x.outcome with
  | error => exact composes.nil
  | ok a => exact second a

theorem lift_bind (composes : Composes P) {x : Except Violation α} {f : α → Traced β}
    (second : ∀ a, P (f a).lines) : P ((liftM x : Traced α) >>= f).lines :=
  composes.bind composes.nil second

theorem andM (composes : Composes P) {x y : Traced Bool} (first : P x.lines) (second : P y.lines) :
    P (x <&&> y).lines := by
  refine composes.bind first fun answer => ?_
  cases answer with
  | false => exact composes.nil
  | true => exact second

theorem orM (composes : Composes P) {x y : Traced Bool} (first : P x.lines) (second : P y.lines) :
    P (x <||> y).lines := by
  refine composes.bind first fun answer => ?_
  cases answer with
  | false => exact second
  | true => exact composes.nil

theorem allM (composes : Composes P) {p : α → Traced Bool} (each : ∀ a ∈ l, P (p a).lines) :
    P (l.allM p).lines := by
  induction l with
  | nil => exact composes.nil
  | cons a l ih =>
    obtain ⟨head, tail⟩ := List.forall_mem_cons.mp each
    refine composes.bind head fun answer => ?_
    cases answer with
    | false => exact composes.nil
    | true => exact ih tail

theorem anyM (composes : Composes P) {p : α → Traced Bool} (each : ∀ a ∈ l, P (p a).lines) :
    P (l.anyM p).lines := by
  induction l with
  | nil => exact composes.nil
  | cons a l ih =>
    obtain ⟨head, tail⟩ := List.forall_mem_cons.mp each
    refine composes.bind head fun answer => ?_
    cases answer with
    | false => exact ih tail
    | true => exact composes.nil

theorem filterM (composes : Composes P) {p : α → Traced Bool} (each : ∀ a ∈ l, P (p a).lines) :
    P (l.filterM p).lines := by
  have loop (kept : List α) : P (l.filterAuxM p kept).lines := by
    induction l generalizing kept with
    | nil => exact composes.nil
    | cons a l ih =>
      obtain ⟨head, tail⟩ := List.forall_mem_cons.mp each
      exact composes.bind head fun answer => ih tail _
  exact composes.bind (loop []) fun _ => composes.nil

theorem flatMapM (composes : Composes P) {f : α → Traced (List β)}
    (each : ∀ a ∈ l, P (f a).lines) : P (l.flatMapM f).lines := by
  have loop (collected : List (List β)) : P (List.flatMapM.loop f l collected).lines := by
    induction l generalizing collected with
    | nil => exact composes.nil
    | cons a l ih =>
      obtain ⟨head, tail⟩ := List.forall_mem_cons.mp each
      exact composes.bind head fun answer => ih tail _
  exact loop []

/-! ### On top of two states -/

theorem lift_run (composes : Composes P) {x : Except Violation α} (s : σ) :
    P ((liftM x : StateT σ Traced α).run s).lines := by
  cases x with
  | error => exact composes.nil
  | ok => exact composes.nil

theorem forM (composes : Composes P) {f : α → StateT τ (StateT σ Traced) PUnit}
    (each : ∀ a ∈ l, ∀ t s, P (((f a).run t).run s).lines) (t : τ) (s : σ) :
    P (((l.forM f).run t).run s).lines := by
  induction l generalizing t s with
  | nil => exact composes.nil
  | cons a l ih =>
    obtain ⟨head, tail⟩ := List.forall_mem_cons.mp each
    exact composes.bind (head t s) fun after => ih tail _ _

/-- A traversal keeps to what its visitor keeps to, whatever its budget. -/
theorem visitOnce (composes : Composes P) {env : Environment} {provisional : ρ}
    {visitor : Visitor (StateT σ Traced) ρ}
    (step : ∀ visit h shape, (∀ next memo s, P (((visit next).run memo).run s).lines) →
      ∀ memo s, P (((visitor visit h shape).run memo).run s).lines)
    (budget : Nat) (h : Handle) (memo : Memo ρ) (s : σ) :
    P (((env.visitOnce provisional visitor budget h).run memo).run s).lines := by
  induction budget generalizing h memo s with
  | zero =>
    cases found : memo[h]? with
    | some answer =>
      rw [Environment.run_visitOnce_of_some found]
      exact composes.nil
    | none =>
      unfold Environment.visitOnce
      simp only [found, StateT.run_bind, StateT.run_get, pure_bind]
      exact composes.nil
  | succ budget ih =>
    cases found : memo[h]? with
    | some answer =>
      rw [Environment.run_visitOnce_of_some found]
      exact composes.nil
    | none =>
      rw [Environment.run_visitOnce_of_none found, StateT.run_bind]
      refine composes.bind (composes.lift_run s) ?_
      rintro ⟨shape, s⟩
      rw [StateT.run_bind]
      exact composes.bind (step _ h shape ih _ _) fun after => composes.nil

end Composes

end Trace

end TypeHierarchy
