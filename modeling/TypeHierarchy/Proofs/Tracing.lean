import TypeHierarchy.Proofs.Arrangement
import TypeHierarchy.Proofs.ForeignTypes
import TypeHierarchy.Proofs.Nesting
import TypeHierarchy.Proofs.Outline

/-!
# Traces of queries

A query leaves the span of every check and of every bound of two types that it comes down to, nested
as they are, and each check tells its answer before its span is left.  `WellTraced` says what a reader
of the trace may rely on: the spans are properly bracketed, and in the span of a check the answer is
told once, at the very end, and is the one for the two types named at its start.

A program whose lines are `Tidy` tells no answer outside of the spans of checks.  Tidy lines compose,
so only the spans need arguments of their own, and only that of a check has more to it: the answer it
tells is the outcome of its rules, with the checks nested in it as `Asks` has them.
-/

namespace TypeHierarchy

open Trace

/-- The lines that a reader who asked for `wanted` sees. -/
def Traced.linesAt {α : Type} (wanted : Level) (x : Traced α) : List Line :=
  x.lines.filter (Line.shownAt wanted)

/-- At the finest level nothing is left out. -/
theorem Traced.linesAt_trace {α : Type} (x : Traced α) : x.linesAt .trace = x.lines :=
  List.filter_eq_self.mpr fun _ _ => rfl

/-- The event tells the answer of a check. -/
def Trace.Event.isConclusion : Event → Bool
  | subtypeChecked _ => true
  | _ => false

/-- The span around the bound of two types. -/
def Bound.span : Bound → Span
  | least => .leastSupertypes
  | greatest => .greatestSubtypes

/-! ## Lines of checks and bounds -/

namespace Trace.Composes

variable {P : List Line → Prop} {env : Environment} {bound : Bound}

theorem subtypeStep_of_nested (composes : Composes P) (stopped : P [.event .recursiveOperand])
    {nested : Handle → Handle → Traced Bool} (each : ∀ p q, P (nested p q).lines) (a b : Handle) :
    P (env.subtypeStep nested a b).lines := by
  unfold Environment.subtypeStep
  split
  · exact composes.nil
  refine composes.lift_bind fun reduces => ?_
  split
  · exact composes.nil
  refine composes.bind (composes.orM composes.nil composes.nil) fun recursive => ?_
  split
  · exact composes.bind stopped fun _ => composes.nil
  refine composes.lift_bind fun target => ?_
  cases target with
  | constant | subset | record => exact composes.nil
  | union others =>
    refine composes.lift_bind fun source => ?_
    cases source with
    | union members => exact composes.allM fun member _ => each member b
    | constant | subset | record => exact composes.anyM fun other _ => each a other

open scoped Classical in
/-- Only the questions that a check asks leave lines. -/
theorem subtypeStep (composes : Composes P) (stopped : P [.event .recursiveOperand])
    (closed : env.Closed) {a b : Handle} (own_a : env.owns a = true) (own_b : env.owns b = true)
    {nested : Handle → Handle → Traced Bool}
    (each : ∀ p q, env.Asks (a, b) (p, q) → P (nested p q).lines) :
    P (env.subtypeStep nested a b).lines := by
  have same : env.subtypeStep nested a b = env.subtypeStep
      (fun p q => if env.Asks (a, b) (p, q) then nested p q else pure false) a b :=
    Environment.subtypeStep_congr closed own_a own_b fun p q asks => (if_pos asks).symm
  rw [same]
  refine composes.subtypeStep_of_nested stopped (fun p q => ?_) a b
  split
  · exact each p q ‹_›
  · exact composes.nil

theorem strictlyBelow (composes : Composes P) (each : ∀ p q, P (env.isSubtype p q).lines)
    (a b : Handle) : P (env.strictlyBelow a b).lines := by
  unfold Environment.strictlyBelow
  split
  · exact composes.nil
  refine composes.bind (each a b) fun below => ?_
  split
  · exact composes.bind (each b a) fun _ => composes.nil
  · exact composes.nil

theorem antichain (composes : Composes P) (each : ∀ p q, P (env.isSubtype p q).lines)
    (candidates : List Handle) : P (env.antichain bound candidates).lines := by
  have outranks (other h : Handle) : P (env.outranks bound other h).lines := by
    cases bound with
    | least => exact composes.strictlyBelow each other h
    | greatest => exact composes.strictlyBelow each h other
  refine composes.bind (composes.filterM fun h _ => ?_) fun _ => composes.nil
  exact composes.bind (composes.anyM fun other _ => outranks other h) fun _ => composes.nil

theorem membersBelow (composes : Composes P) (each : ∀ p q, P (env.isSubtype p q).lines)
    (a b : Handle) : P (env.membersBelow a b).lines := by
  refine composes.bind (composes.visitOnce ?_ env.size a ∅ []) fun _ => composes.nil
  intro visit h shape nested memo found
  refine composes.forM (fun member _ memo found => ?_) memo found
  simp only [StateT.run_bind, StateT.run_monadLift, bind_assoc, pure_bind, monadLift_self]
  refine composes.bind (each member b) fun below => ?_
  cases below with
  | true => exact composes.nil
  | false => exact nested member memo found

/-- The bound of two types looks any further only if they are not related. -/
theorem unlessRelated (composes : Composes P) (each : ∀ p q, P (env.isSubtype p q).lines)
    {α : Type} {a b : Handle} {same below above : α} {unrelated : Traced α}
    (further : P unrelated.lines) :
    P (do if a = b then return same
          if ← env.isSubtype a b then return below
          if ← env.isSubtype b a then return above
          unrelated : Traced α).lines := by
  split
  · exact composes.nil
  refine composes.bind (each a b) fun is_below => ?_
  split
  · exact composes.nil
  refine composes.bind (each b a) fun is_above => ?_
  split
  · exact composes.nil
  · exact further

theorem crossBound (composes : Composes P) (each : ∀ p q, P (env.isSubtype p q).lines)
    (pairs : ∀ a b, P (env.pairBound bound a b).lines) (lefts rights : List Handle) :
    P (env.crossBound bound lefts rights).lines := by
  refine composes.bind ?_ fun bounds => composes.antichain each _
  refine composes.flatMapM fun left _ => composes.flatMapM fun right _ => ?_
  exact composes.bind (pairs left right) fun _ => composes.nil

theorem extendBound (composes : Composes P) (each : ∀ p q, P (env.isSubtype p q).lines)
    (pairs : ∀ a b, P (env.pairBound bound a b).lines) (running : HandleSet) (rest : List Handle) :
    P (env.extendBound bound running rest).lines := by
  induction rest generalizing running with
  | nil => exact composes.nil
  | cons next rest ih =>
    refine composes.bind (composes.crossBound each pairs _ _) fun running => ?_
    split
    · exact composes.nil
    · exact ih running

theorem setBound (composes : Composes P) (each : ∀ p q, P (env.isSubtype p q).lines)
    (pairs : ∀ a b, P (env.pairBound bound a b).lines) (types : TypeSet) :
    P (env.setBound bound types).lines := by
  unfold Environment.setBound
  split
  · exact composes.nil
  split
  · exact composes.nil
  · exact composes.extendBound each pairs _ _

theorem pairwiseBound (composes : Composes P) (each : ∀ p q, P (env.isSubtype p q).lines)
    (pairs : ∀ a b, P (env.pairBound bound a b).lines) (left right : TypeSet) :
    P (env.pairwiseBound bound left right).lines := by
  unfold Environment.pairwiseBound
  split
  · exact composes.nil
  split
  · exact composes.nil
  · exact composes.nil
  · exact composes.bind (composes.crossBound each pairs _ _) fun _ => composes.nil

end Trace.Composes

namespace Environment

/-! ## What a trace tells -/

/-- In the span of a check its answer is told once, by the last line, and is what the environment
answers for the two types whose names the span was entered with. -/
def Concludes (env : Environment) (block : Block) : Prop :=
  ∃ a b answer, env.find? block.a = some a ∧ env.find? block.b = some b ∧
    (env.isSubtype a b).outcome = .ok answer ∧
    block.body.events.filter Event.isConclusion = [.subtypeChecked answer] ∧
    block.body.lines.getLast? = some (.event (.subtypeChecked answer))

/-- The checks at any depth of an outline conclude. -/
def Truthful (env : Environment) (outline : Outline) : Prop :=
  ∀ block ∈ outline.blocks, block.span = .subtypeCheck → env.Concludes block

/-- The lines are bracketed, in one way only, and tell the truth. -/
def WellTraced (env : Environment) (lines : List Line) : Prop :=
  ∃ outline : Outline, (∀ other : Outline, other.lines = lines ↔ other = outline) ∧
    env.Truthful outline

/-- Bracketed and truthful lines that tell no answer outside of the spans of checks. -/
def Tidy (env : Environment) (lines : List Line) : Prop :=
  ∃ outline : Outline, outline.lines = lines ∧
    (∀ e ∈ outline.events, e.isConclusion = false) ∧ env.Truthful outline

/-- The lines are those of one span. -/
def Spans (env : Environment) (span : Span) (a b : String) (lines : List Line) : Prop :=
  ∃ body : Outline, (Outline.span span a b body .nil).lines = lines ∧
    env.Truthful (.span span a b body .nil)

variable {env : Environment} {span : Span} {a b : Handle} {name_a name_b : String}
  {lines : List Line} {e : Event} {body first second : Outline} {α : Type}

theorem truthful_append (first_ok : env.Truthful first) (second_ok : env.Truthful second) :
    env.Truthful (first.append second) := by
  intro block mem
  rw [Outline.blocks_append] at mem
  exact (List.mem_append.mp mem).elim (first_ok block) (second_ok block)

theorem truthful_span (inner : env.Truthful body)
    (concludes : span = .subtypeCheck → env.Concludes ⟨span, name_a, name_b, body⟩) :
    env.Truthful (.span span name_a name_b body .nil) := by
  intro block mem
  simp only [Outline.blocks, List.append_nil, List.mem_cons] at mem
  obtain rfl | mem := mem
  · exact concludes
  · exact inner block mem

theorem composes_tidy : Composes env.Tidy where
  nil := ⟨.nil, rfl, by simp [Outline.events], by simp [Truthful, Outline.blocks]⟩
  append := by
    rintro _ _ ⟨first, rfl, quiet, ok⟩ ⟨second, rfl, quiet', ok'⟩
    refine ⟨first.append second, Outline.lines_append .., ?_, truthful_append ok ok'⟩
    rw [Outline.events_append]
    exact List.forall_mem_append.mpr ⟨quiet, quiet'⟩

theorem tidy_event (quiet : e.isConclusion = false) : env.Tidy [.event e] :=
  ⟨.event e .nil, rfl, by simp [Outline.events, quiet], by simp [Truthful, Outline.blocks]⟩

theorem Spans.tidy (spans : env.Spans span name_a name_b lines) : env.Tidy lines := by
  obtain ⟨body, rfl, ok⟩ := spans
  exact ⟨_, rfl, by simp [Outline.events], ok⟩

theorem Tidy.wellTraced (tidy : env.Tidy lines) : env.WellTraced lines := by
  obtain ⟨outline, rfl, -, ok⟩ := tidy
  exact ⟨outline, fun other => Outline.lines_injective.eq_iff, ok⟩

/-! ## Two types -/

/-- A query leaves one span, or stops at a type of another environment before it leaves a line. -/
theorem tidy_of_spans {x : Traced α}
    (spans : ∀ name_a name_b, env.name a = .ok name_a → env.name b = .ok name_b →
      env.Spans span name_a name_b x.lines)
    (stops : env.owns a = false ∨ env.owns b = false → x.lines = []) : env.Tidy x.lines := by
  by_cases own : env.owns a = true ∧ env.owns b = true
  · obtain ⟨name_a, named_a⟩ := exists_name own.1
    obtain ⟨name_b, named_b⟩ := exists_name own.2
    exact (spans name_a name_b named_a named_b).tidy
  · rw [not_and_or, Bool.not_eq_true, Bool.not_eq_true] at own
    rw [stops own]
    exact composes_tidy.nil

/-- The span around a bound. -/
theorem Tidy.spans_within {x : Traced α} (tidy : env.Tidy x.lines) (other : span ≠ .subtypeCheck) :
    env.Spans span name_a name_b (x.within span name_a name_b).lines := by
  obtain ⟨body, written, -, ok⟩ := tidy
  refine ⟨body, ?_, truthful_span ok fun check => absurd check other⟩
  rw [Outline.lines, Outline.lines, written, Traced.lines_within, List.cons_append]

/-- The span around a check, which tells its outcome. -/
theorem Tidy.spans_check {x : Traced Bool} {answer : Bool} (tidy : env.Tidy x.lines)
    (done : x.outcome = .ok answer) (found_a : env.find? name_a = some a)
    (found_b : env.find? name_b = some b) (asked : (env.isSubtype a b).outcome = .ok answer) :
    env.Spans .subtypeCheck name_a name_b (Traced.within .subtypeCheck name_a name_b do
      let result ← x
      Traced.emit (.subtypeChecked result)
      return result).lines := by
  obtain ⟨outline, written, quiet, ok⟩ := tidy
  refine ⟨outline.append (.event (.subtypeChecked answer) .nil), ?_, truthful_span ?_ fun _ => ?_⟩
  · rw [Traced.lines_within, Traced.lines_bind, done, Outline.lines, Outline.lines_append, written]
    rfl
  · exact truthful_append ok (by simp [Truthful, Outline.blocks])
  · have silent : outline.events.filter Event.isConclusion = [] :=
      List.filter_eq_nil_iff.mpr fun e mem => by simp [quiet e mem]
    refine ⟨a, b, answer, found_a, found_b, asked, ?_, ?_⟩
    · rw [Outline.events_append, List.filter_append, silent]
      rfl
    · rw [Outline.lines_append]
      exact List.getLast?_concat

/-- A check leaves one span, with everything nested in it. -/
theorem spans_isSubtype (arranged : env.Arranged) (question : Handle × Handle)
    (named_a : env.name question.1 = .ok name_a) (named_b : env.name question.2 = .ok name_b) :
    env.Spans .subtypeCheck name_a name_b (env.isSubtype question.1 question.2).lines := by
  -- The induction is on the questions that a check asks, and so on the checks nested in it.
  induction question using env.wellFounded_asks.induction generalizing name_a name_b with
  | h question ih =>
    obtain ⟨a, b⟩ := question
    have closed := arranged.closed
    have own_a := owns_of_name named_a
    have own_b := owns_of_name named_b
    have tidy : env.Tidy (env.subtypeStep env.isSubtype a b).lines := by
      refine composes_tidy.subtypeStep (tidy_event rfl) closed own_a own_b fun p q asks => ?_
      obtain ⟨own_p, own_q⟩ := asks.owns closed
      obtain ⟨name_p, named_p⟩ := exists_name own_p
      obtain ⟨name_q, named_q⟩ := exists_name own_q
      exact (ih (p, q) asks named_p named_q).tidy
    have asked := isSubtype_eq closed own_a own_b
    have same : (env.isSubtype a b).outcome = (env.subtypeStep env.isSubtype a b).outcome := by
      rw [isSubtype_eq_query closed own_a own_b, outcome_query own_a own_b, Traced.outcome_bind]
      exact bind_pure _
    rw [isSubtype_eq_query closed own_a own_b, query_eq_within named_a named_b own_a own_b]
    exact tidy.spans_check (same.symm.trans asked) (arranged.find?_eq_some_iff.mpr named_a)
      (arranged.find?_eq_some_iff.mpr named_b) asked

theorem tidy_isSubtype (arranged : env.Arranged) (a b : Handle) :
    env.Tidy (env.isSubtype a b).lines := by
  refine tidy_of_spans (fun _ _ => spans_isSubtype arranged (a, b)) fun foreign => ?_
  rw [isSubtype, isSubtypeWithin, query_eq_fail foreign]
  rfl

/-- The bound of two types leaves one span. -/
theorem spans_pairBound (arranged : env.Arranged) (bound : Bound)
    (named_a : env.name a = .ok name_a) (named_b : env.name b = .ok name_b) :
    env.Spans bound.span name_a name_b (env.pairBound bound a b).lines := by
  have own_a := owns_of_name named_a
  have own_b := owns_of_name named_b
  have composes : Composes env.Tidy := composes_tidy
  have each := tidy_isSubtype arranged
  cases bound with
  | least =>
    rw [pairBound, leastCommonSupertypes, query_eq_within named_a named_b own_a own_b]
    refine Tidy.spans_within (composes.unlessRelated each ?_) (by decide)
    refine composes.bind (composes.filterM fun h _ => composes.andM (each a h) (each b h)) ?_
    intro candidates
    exact composes.bind (tidy_event rfl) fun _ => composes.antichain each candidates
  | greatest =>
    rw [pairBound, greatestCommonSubtypes, query_eq_within named_a named_b own_a own_b]
    refine Tidy.spans_within (composes.unlessRelated each ?_) (by decide)
    refine composes.lift_bind fun shape_a => composes.lift_bind fun shape_b => ?_
    split
    · exact composes.nil
    refine composes.bind (composes.membersBelow each a b) fun candidates => ?_
    exact composes.bind (tidy_event rfl) fun _ => composes.antichain each candidates.toList

theorem tidy_pairBound (arranged : env.Arranged) (bound : Bound) (a b : Handle) :
    env.Tidy (env.pairBound bound a b).lines := by
  refine tidy_of_spans (fun _ _ => spans_pairBound arranged bound) fun foreign => ?_
  cases bound with
  | least | greatest => exact congrArg Traced.lines (query_eq_fail foreign)

/-! ## All queries -/

/-- The trace of every query is properly bracketed and tells the truth, and of a query about two types
of the environment it is one span, entered with their names. -/
theorem queries_wellTraced (reachable : env.Reachable) :
    (∀ a b, env.WellTraced ((env.isSubtype a b).linesAt .trace)) ∧
    (∀ bound a b, env.WellTraced ((env.pairBound bound a b).linesAt .trace)) ∧
    (∀ bound types, env.WellTraced ((env.setBound bound types).linesAt .trace)) ∧
    (∀ bound left right, env.WellTraced ((env.pairwiseBound bound left right).linesAt .trace)) ∧
    ∀ a b, env.owns a = true → env.owns b = true → ∃ name_a name_b,
      env.find? name_a = some a ∧ env.find? name_b = some b ∧
      env.Spans .subtypeCheck name_a name_b ((env.isSubtype a b).linesAt .trace) ∧
      ∀ bound, env.Spans bound.span name_a name_b ((env.pairBound bound a b).linesAt .trace) := by
  have arranged := reachable.arranged
  have composes : Composes env.Tidy := composes_tidy
  have each := tidy_isSubtype arranged
  have pairs := tidy_pairBound arranged
  simp only [Traced.linesAt_trace]
  refine ⟨fun a b => (each a b).wellTraced, fun bound a b => (pairs bound a b).wellTraced,
    fun bound types => (composes.setBound each (pairs bound) types).wellTraced,
    fun bound left right => (composes.pairwiseBound each (pairs bound) left right).wellTraced,
    fun a b own_a own_b => ?_⟩
  obtain ⟨name_a, named_a, found_a⟩ := arranged.find?_name own_a
  obtain ⟨name_b, named_b, found_b⟩ := arranged.find?_name own_b
  exact ⟨name_a, name_b, found_a, found_b, spans_isSubtype arranged (a, b) named_a named_b,
    fun bound => spans_pairBound arranged bound named_a named_b⟩

/-- The check of a primitive type against a union of three others, one union inside the other. -/
def strayPrimitive : Outline :=
  .span .subtypeCheck "unsigned" "Triple"
    (.span .subtypeCheck "unsigned" "Pair"
      (.span .subtypeCheck "unsigned" "number" (.event (.subtypeChecked false) .nil)
        (.span .subtypeCheck "unsigned" "float" (.event (.subtypeChecked false) .nil)
          (.event (.subtypeChecked false) .nil)))
      (.span .subtypeCheck "unsigned" "symbol" (.event (.subtypeChecked false) .nil)
        (.event (.subtypeChecked false) .nil))) .nil

/-- All five checks in it conclude, and the bound of the two unions is one span. -/
theorem queries_wellTraced_nestedUnions :
    strayPrimitive.lines = (nestedUnions.isSubtype ⟨⟨0⟩, 7⟩ ⟨⟨0⟩, 9⟩).linesAt .trace ∧
    nestedUnions.Truthful strayPrimitive ∧
    nestedUnions.Spans .greatestSubtypes "Pair" "Triple"
      ((nestedUnions.pairBound .greatest ⟨⟨0⟩, 8⟩ ⟨⟨0⟩, 9⟩).linesAt .trace) := by
  have written : strayPrimitive.lines =
      (nestedUnions.isSubtype ⟨⟨0⟩, 7⟩ ⟨⟨0⟩, 9⟩).linesAt .trace := by decide +kernel
  obtain ⟨checks, -, -, -, two⟩ := queries_wellTraced reachable_nestedUnions
  obtain ⟨outline, unique, truthful⟩ := checks ⟨⟨0⟩, 7⟩ ⟨⟨0⟩, 9⟩
  obtain rfl : strayPrimitive = outline := (unique strayPrimitive).mp written
  obtain ⟨name_a, name_b, found_a, found_b, -, bounds⟩ :=
    two ⟨⟨0⟩, 8⟩ ⟨⟨0⟩, 9⟩ (by decide) (by decide)
  obtain rfl : "Pair" = name_a := Except.ok.inj (name_of_find? found_a)
  obtain rfl : "Triple" = name_b := Except.ok.inj (name_of_find? found_b)
  exact ⟨written, truthful, bounds .greatest⟩

end Environment

end TypeHierarchy
