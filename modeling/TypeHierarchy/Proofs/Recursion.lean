import Mathlib.Logic.Relation
import TypeHierarchy.Proofs.Traversal
import TypeHierarchy.Recursion

/-!
# Recursive types as types on a cycle

`Recursive h` says that a path of one or more steps leads from the type back to it: through members
of unions, and through fields of records as well when the type is a record.  The search decides it
(`isRecursive_eq`).  Answers remembered on the way may be wrong, since a type whose only way to the
target goes through a type still being searched is remembered as `false`.  The whole search is right
all the same: when it ends with `false`, the types it has entered are closed under steps and none of
their steps arrives at the target.  `isRecursive_exact` says the same in terms of members and fields.
-/

namespace TypeHierarchy

theorem Shape.mem_references_of_mem_successors {s : Shape} {throughFields : Bool} {next : Handle}
    (mem : next ∈ s.successors throughFields) : next ∈ s.references := by
  cases s with
  | constant | subset => cases mem
  | union members => exact mem
  | record fields =>
    cases throughFields with
    | false => cases mem
    | true => exact mem

theorem Shape.successors_false (s : Shape) : s.successors false = s.members := by
  cases s <;> rfl

namespace Environment

open scoped Classical
open Relation

/-- One step along a member of a union or, where asked for, a field of a record. -/
def Leads (env : Environment) (throughFields : Bool) (h next : Handle) : Prop :=
  ∃ s, env.shape h = .ok s ∧ next ∈ s.successors throughFields

/-- Some way leads from the type back to it. -/
def Recursive (env : Environment) (h : Handle) : Prop :=
  ∃ s, env.shape h = .ok s ∧ TransGen (env.Leads s.isRecord) h h

/-- A computation that started from `memo` looked for a way to `target`: a `true` answer means that
there is one, and after a `false` answer all of `hs` and all that lies behind newly entered types has
been entered, without meeting the target. -/
structure Searched (env : Environment) (throughFields : Bool) (target : Handle) (arrives : Prop)
    (hs : List Handle) (memo : Memo Bool) (answer : Bool) (after : Memo Bool) : Prop where
  grows : ∀ x ∈ memo, x ∈ after
  sound : Trusted (TransGen (env.Leads throughFields) · target) memo →
    (answer = true → arrives) ∧ Trusted (TransGen (env.Leads throughFields) · target) after
  exhausted : answer = false → (∀ h ∈ hs, h ∈ after) ∧
    ∀ x ∈ after, x ∉ memo → ∀ next, env.Leads throughFields x next → next ≠ target ∧ next ∈ after

variable {env : Environment} {throughFields : Bool} {target h next : Handle} {s : Shape}
  {hs : List Handle} {memo after : Memo Bool} {answer : Bool}

theorem leads_iff (hs : env.shape h = .ok s) :
    env.Leads throughFields h next ↔ next ∈ s.successors throughFields := exists_shape_iff hs

theorem leads_iff_mem_members (hs : env.shape h = .ok s) :
    env.Leads false h next ↔ next ∈ s.members := by
  rw [leads_iff hs, s.successors_false]

theorem Leads.owns (closed : env.Closed) (step : env.Leads throughFields h next) :
    env.owns next = true := by
  obtain ⟨s, hs, mem⟩ := step
  exact closed.owns_of_mem hs (Shape.mem_references_of_mem_successors mem)

theorem owns_of_path (closed : env.Closed) (path : TransGen (env.Leads throughFields) h next) :
    env.owns next = true := by
  obtain ⟨_, -, last⟩ := TransGen.tail'_iff.mp path
  exact last.owns closed

theorem recursive_iff (hs : env.shape h = .ok s) :
    env.Recursive h ↔ TransGen (env.Leads s.isRecord) h h := exists_shape_iff hs

theorem Recursive.owns (recursive : env.Recursive h) : env.owns h = true := by
  obtain ⟨s, hs, -⟩ := recursive
  exact owns_of_shape hs

theorem Searched.remembered (found : memo[h]? = some answer) :
    env.Searched throughFields target (TransGen (env.Leads throughFields) h target) [h] memo answer
      memo where
  grows _ hx := hx
  sound ok := ⟨fun e => ok h (e ▸ found), ok⟩
  exhausted _ := by
    refine ⟨fun x hx => ?_, fun x hx fresh => absurd hx fresh⟩
    rw [List.mem_singleton.mp hx]
    exact mem_of_getElem? found

/-- A visit that has searched all successors has searched the visited type. -/
theorem Searched.visited (hshape : env.shape h = .ok s)
    (inner : env.Searched throughFields target
      (∃ next ∈ s.successors throughFields, ReflTransGen (env.Leads throughFields) next target)
      (s.successors throughFields) (memo.insert h false) answer after)
    (missed : answer = false → target ∉ s.successors throughFields) :
    env.Searched throughFields target (TransGen (env.Leads throughFields) h target) [h] memo answer
      (after.insert h answer) where
  grows x hx := mem_insert_iff.mpr (.inr (inner.grows x (mem_insert_iff.mpr (.inr hx))))
  sound ok := by
    obtain ⟨right, ok'⟩ := inner.sound (ok.insert fun e => absurd e Bool.false_ne_true)
    have arrives (e : answer = true) : TransGen (env.Leads throughFields) h target := by
      obtain ⟨next, mem, path⟩ := right e
      exact .head' ((leads_iff hshape).mpr mem) path
    exact ⟨arrives, ok'.insert arrives⟩
  exhausted e := by
    obtain ⟨entered, closed⟩ := inner.exhausted e
    refine ⟨fun x hx => mem_insert_iff.mpr (.inl (List.mem_singleton.mp hx)), ?_⟩
    intro x hx fresh next step
    by_cases xh : x = h
    · subst xh
      have mem := (leads_iff hshape).mp step
      exact ⟨fun hit => missed e (hit ▸ mem), mem_insert_iff.mpr (.inr (entered next mem))⟩
    · have entered_x : x ∈ after := (mem_insert_iff.mp hx).resolve_left xh
      have fresh_x : x ∉ memo.insert h false := fun hm => (mem_insert_iff.mp hm).elim xh fresh
      obtain ⟨ne, mem⟩ := closed x entered_x fresh_x next step
      exact ⟨ne, mem_insert_iff.mpr (.inr mem)⟩

/-! ## The search -/

/-- The visit searches the type, and a violation does not happen. -/
def Searches (env : Environment) (throughFields : Bool) (target h : Handle) (memo : Memo Bool)
    (x : Except Violation (Bool × Memo Bool)) : Prop :=
  ∃ answer after, x = .ok (answer, after) ∧ env.Searched throughFields target
    (TransGen (env.Leads throughFields) h target) [h] memo answer after

/-- Like `Searches`, for a computation that first looks whether it stands at the target. -/
def Inspects (env : Environment) (throughFields : Bool) (target : Handle) (hs : List Handle)
    (memo : Memo Bool) (x : Except Violation (Bool × Memo Bool)) : Prop :=
  ∃ answer after, x = .ok (answer, after) ∧ env.Searched throughFields target
    (∃ h ∈ hs, ReflTransGen (env.Leads throughFields) h target) hs memo answer after ∧
    (answer = false → target ∉ hs)

theorem inspects_of_searches {visit : Visit (Except Violation) Bool}
    (searches : env.Searches throughFields target h memo ((visit h).run memo)) :
    env.Inspects throughFields target [h] memo
      ((if h = target then return true else visit h :
        StateT (Memo Bool) (Except Violation) Bool).run memo) := by
  by_cases hit : h = target
  · rw [if_pos hit]
    refine ⟨true, memo, rfl, ⟨fun _ hx => hx, fun ok => ⟨fun _ => ?_, ok⟩, fun e => ?_⟩,
      fun e => ?_⟩
    · exact ⟨h, List.mem_singleton_self h, hit ▸ .refl⟩
    · cases e
    · cases e
  · rw [if_neg hit]
    obtain ⟨answer, after, run, searched⟩ := searches
    refine ⟨answer, after, run, ⟨searched.grows, fun ok => ?_, searched.exhausted⟩, fun _ mem => ?_⟩
    · obtain ⟨right, ok'⟩ := searched.sound ok
      exact ⟨fun e => ⟨h, List.mem_singleton_self h, (right e).to_reflTransGen⟩, ok'⟩
    · exact hit (List.mem_singleton.mp mem).symm

theorem inspects_anyM {p : Visit (Except Violation) Bool} {start : Memo Bool}
    (inspects : ∀ h ∈ hs, ∀ memo, (∀ x ∈ start, x ∈ memo) →
      env.Inspects throughFields target [h] memo ((p h).run memo))
    (from_start : ∀ x ∈ start, x ∈ memo) :
    env.Inspects throughFields target hs memo ((hs.anyM p).run memo) := by
  induction hs generalizing memo with
  | nil =>
    refine ⟨false, memo, rfl, ⟨fun _ hx => hx, fun ok => ⟨fun e => ?_, ok⟩, fun _ => ⟨?_, ?_⟩⟩, ?_⟩
    · cases e
    · exact fun _ hx => absurd hx List.not_mem_nil
    · exact fun x hx fresh => absurd hx fresh
    · exact fun _ => List.not_mem_nil
  | cons h hs ih =>
    obtain ⟨inspects_h, inspects_hs⟩ := List.forall_mem_cons.mp inspects
    obtain ⟨first, middle, run_h, searched, missed⟩ := inspects_h memo from_start
    rw [run_anyM_cons run_h]
    cases first with
    | true =>
      refine ⟨true, middle, rfl, ⟨searched.grows, fun ok => ?_, fun e => ?_⟩, fun e => ?_⟩
      · obtain ⟨right, ok'⟩ := searched.sound ok
        obtain ⟨next, mem, path⟩ := right rfl
        exact ⟨fun _ => ⟨h, List.mem_cons_self, List.mem_singleton.mp mem ▸ path⟩, ok'⟩
      · cases e
      · cases e
    | false =>
      obtain ⟨answer, after, run_hs, searched', missed'⟩ :=
        ih inspects_hs fun x hx => searched.grows x (from_start x hx)
      refine ⟨answer, after, run_hs, ⟨fun x hx => searched'.grows x (searched.grows x hx),
        fun ok => ?_, fun e => ?_⟩, fun e => ?_⟩
      · obtain ⟨-, ok'⟩ := searched.sound ok
        obtain ⟨right, ok''⟩ := searched'.sound ok'
        refine ⟨fun e => ?_, ok''⟩
        obtain ⟨next, mem, path⟩ := right e
        exact ⟨next, List.mem_cons_of_mem h mem, path⟩
      · obtain ⟨entered, closed⟩ := searched.exhausted rfl
        obtain ⟨entered', closed'⟩ := searched'.exhausted e
        have entered_h : h ∈ after := searched'.grows h (entered h (List.mem_singleton_self h))
        refine ⟨List.forall_mem_cons.mpr ⟨entered_h, entered'⟩, fun x hx fresh next step => ?_⟩
        -- A type is closed since the part of the loop that entered it.
        by_cases hm : x ∈ middle
        · obtain ⟨ne, mem⟩ := closed x hm fresh next step
          exact ⟨ne, searched'.grows next mem⟩
        · exact closed' x hx hm next step
      · rw [List.mem_cons, ← List.mem_singleton]
        exact not_or.mpr ⟨missed rfl, missed' e⟩

theorem inspects_visitor (closed : env.Closed) (hs : env.shape h = .ok s)
    {visit : Visit (Except Violation) Bool}
    (visits : ∀ next after, env.owns next = true → (∀ x ∈ memo, x ∈ after) →
      env.Searches throughFields target next after ((visit next).run after)) :
    env.Inspects throughFields target (s.successors throughFields) memo
      ((cycleVisitor target throughFields visit h s).run memo) := by
  refine inspects_anyM (fun next mem after grows => ?_) fun _ hx => hx
  have own : env.owns next = true := Leads.owns closed ((leads_iff hs).mpr mem)
  exact inspects_of_searches (visits next after own grows)

theorem searches_visitOnce (closed : env.Closed) {budget : Nat} (own : env.owns h = true)
    (enough : env.unseen memo ≤ budget) :
    env.Searches throughFields target h memo
      ((env.visitOnce false (cycleVisitor target throughFields) budget h).run memo) := by
  refine visitOnce_rule ?_ ?_ own enough
  · intro h memo answer found
    exact ⟨answer, memo, rfl, .remembered found⟩
  · intro h memo s visit hs _ visits
    obtain ⟨answer, after, run, searched, missed⟩ := inspects_visitor closed hs visits
    exact ⟨answer, after.insert h answer, by rw [run]; rfl, searched.visited hs missed⟩

/-- The search decides recursion. -/
theorem isRecursive_eq (closed : env.Closed) (own : env.owns h = true) :
    env.isRecursive h = .ok (decide (env.Recursive h)) := by
  obtain ⟨s, hs⟩ := exists_shape own
  have inspected : env.Inspects s.isRecord h (s.successors s.isRecord) ∅
      ((cycleVisitor h s.isRecord
        (env.visitOnce false (cycleVisitor h s.isRecord) env.size) h s).run ∅) := by
    refine inspects_visitor closed hs fun next after own' grows => searches_visitOnce closed own' ?_
    exact unseen_empty ▸ env.unseen_le grows
  obtain ⟨answer, after, run, searched, missed⟩ := inspected
  have answer_iff : answer = true ↔ env.Recursive h := by
    constructor
    · intro e
      obtain ⟨next, mem, path⟩ := (searched.sound (trusted_empty _)).1 e
      exact (recursive_iff hs).mpr (.head' ((leads_iff hs).mpr mem) path)
    · intro recursive
      have cycle := (recursive_iff hs).mp recursive
      rcases Bool.eq_false_or_eq_true answer with e | e
      · exact e
      obtain ⟨entered, closed'⟩ := searched.exhausted e
      have inside (x : Handle) (path : TransGen (env.Leads s.isRecord) h x) :
          x ≠ h ∧ x ∈ after := by
        induction path with
        | single step =>
          have mem := (leads_iff hs).mp step
          exact ⟨fun hit => missed e (hit ▸ mem), entered _ mem⟩
        | tail _ step ih => exact closed' _ ih.2 (by simp) _ step
      exact absurd rfl (inside h cycle).1
  rw [isRecursive, hs, ok_bind]
  simp only [StateT.run'_eq, run, ← answer_iff, Bool.decide_eq_true]
  rfl

theorem owns_of_isRecursive (done : env.isRecursive h = .ok answer) :
    env.owns h = true := by
  obtain ⟨s, hs, -⟩ := bind_eq_ok_iff.mp done
  exact owns_of_shape hs

theorem isRecursive_iff (closed : env.Closed) (own : env.owns h = true) :
    env.isRecursive h = .ok true ↔ env.Recursive h := by
  rw [isRecursive_eq closed own, Except.ok.injEq, decide_eq_true_iff]

theorem not_isRecursive_iff (closed : env.Closed) (own : env.owns h = true) :
    env.isRecursive h = .ok false ↔ ¬ env.Recursive h := by
  rw [isRecursive_eq closed own, Except.ok.injEq, decide_eq_false_iff_not]

/-! ## Cycles of members and fields -/

/-- The first type is a union with the second as a member. -/
def HasMember (env : Environment) (h next : Handle) : Prop :=
  ∃ members, env.shape h = .ok (.union members) ∧ next ∈ members

/-- The first type is a record with a field of the second type. -/
def HasField (env : Environment) (h next : Handle) : Prop :=
  ∃ fields, env.shape h = .ok (.record fields) ∧ ∃ field ∈ fields, field.type = next

theorem leads_false : env.Leads false = env.HasMember := by
  funext h next
  refine propext ⟨fun ⟨s, hs, mem⟩ => ?_, fun ⟨members, hs, mem⟩ => ⟨_, hs, mem⟩⟩
  cases s with
  | union members => exact ⟨members, hs, mem⟩
  | constant | subset | record => cases mem

theorem leads_true : env.Leads true = fun h next => env.HasMember h next ∨ env.HasField h next := by
  funext h next
  refine propext ⟨fun ⟨s, hs, mem⟩ => ?_, ?_⟩
  · cases s with
    | union members => exact .inl ⟨members, hs, mem⟩
    | record fields => exact .inr ⟨fields, hs, List.mem_map.mp mem⟩
    | constant | subset => cases mem
  · rintro (⟨members, hs, mem⟩ | ⟨fields, hs, mem⟩)
    · exact ⟨_, hs, mem⟩
    · exact ⟨_, hs, List.mem_map.mpr mem⟩

/-- Only unions and records are recursive, and which steps count depends on which of the two it is. -/
theorem recursive_iff_cycle (own : env.owns h = true) :
    env.Recursive h ↔
      (∃ members, env.shape h = .ok (.union members)) ∧ TransGen env.HasMember h h ∨
      (∃ fields, env.shape h = .ok (.record fields)) ∧
        TransGen (fun x y => env.HasMember x y ∨ env.HasField x y) h h := by
  obtain ⟨s, hs⟩ := exists_shape own
  rw [recursive_iff hs, ← leads_true, ← leads_false]
  cases s with
  | union members => simp [hs, Shape.isRecord]
  | record fields => simp [hs, Shape.isRecord]
  | constant | subset =>
    have stuck : ¬ TransGen (env.Leads false) h h := fun cycle => by
      obtain ⟨next, step, -⟩ := TransGen.head'_iff.mp cycle
      cases (leads_iff hs).mp step
    simpa [hs, Shape.isRecord] using stuck

/-- The search says yes to a union just when members lead from it back to it, which takes them through
unions alone, and to a record just when members and fields do.  To other types it says no. -/
theorem isRecursive_exact (reachable : env.Reachable) (own : env.owns h = true) :
    env.isRecursive h = .ok (decide (
      (∃ members, env.shape h = .ok (.union members)) ∧ TransGen env.HasMember h h ∨
      (∃ fields, env.shape h = .ok (.record fields)) ∧
        TransGen (fun x y => env.HasMember x y ∨ env.HasField x y) h h)) := by
  rw [isRecursive_eq reachable.closed own, Except.ok.injEq, decide_eq_decide]
  exact recursive_iff_cycle own

/-- A record with two unions on its way back to it, which are members of each other, and a union whose
only member has a field that leads back to the union. -/
def interlocked : Environment :=
  { initial ⟨0⟩ with entries := (initial ⟨0⟩).entries ++
      #[⟨"List", .record [⟨"tail", ⟨⟨0⟩, 9⟩⟩]⟩, ⟨"Front", .union [⟨⟨0⟩, 10⟩, ⟨⟨0⟩, 8⟩]⟩,
        ⟨"Back", .union [⟨⟨0⟩, 9⟩]⟩, ⟨"Holder", .union [⟨⟨0⟩, 12⟩]⟩,
        ⟨"Held", .record [⟨"owner", ⟨⟨0⟩, 11⟩⟩]⟩] }

theorem reachable_interlocked : interlocked.Reachable := by
  have made : Environment.after [.declare 0 "List" .record, .declare 0 "Front" .union,
      .declare 0 "Back" .union, .declare 0 "Holder" .union, .declare 0 "Held" .record,
      .addField 0 ⟨⟨0⟩, 8⟩ "tail" ⟨⟨0⟩, 9⟩, .addMember 0 ⟨⟨0⟩, 9⟩ ⟨⟨0⟩, 10⟩,
      .addMember 0 ⟨⟨0⟩, 9⟩ ⟨⟨0⟩, 8⟩, .addMember 0 ⟨⟨0⟩, 10⟩ ⟨⟨0⟩, 9⟩,
      .addMember 0 ⟨⟨0⟩, 11⟩ ⟨⟨0⟩, 12⟩, .addField 0 ⟨⟨0⟩, 12⟩ "owner" ⟨⟨0⟩, 11⟩] =
      interlocked := by decide +kernel
  exact made ▸ reachable_after _

/-- The record is found to be recursive, though on the way its second union is remembered as a dead
end.  The union that needs a field to come back to itself is not recursive. -/
theorem isRecursive_interlocked :
    interlocked.isRecursive ⟨⟨0⟩, 8⟩ = .ok true ∧
    TransGen (fun x y => interlocked.HasMember x y ∨ interlocked.HasField x y) ⟨⟨0⟩, 8⟩ ⟨⟨0⟩, 8⟩ ∧
    interlocked.isRecursive ⟨⟨0⟩, 11⟩ = .ok false ∧
    ¬ TransGen interlocked.HasMember ⟨⟨0⟩, 11⟩ ⟨⟨0⟩, 11⟩ := by
  have yes : interlocked.isRecursive ⟨⟨0⟩, 8⟩ = .ok true := eq_ok_of_toOption (by decide +kernel)
  have no : interlocked.isRecursive ⟨⟨0⟩, 11⟩ = .ok false := eq_ok_of_toOption (by decide +kernel)
  have record := isRecursive_exact reachable_interlocked (h := ⟨⟨0⟩, 8⟩) (by decide)
  have union := isRecursive_exact reachable_interlocked (h := ⟨⟨0⟩, 11⟩) (by decide)
  rw [yes, Except.ok.injEq] at record
  rw [no, Except.ok.injEq] at union
  refine ⟨yes, ?_, no, fun cycle => of_decide_eq_false union.symm (.inl ⟨⟨_, rfl⟩, cycle⟩)⟩
  rcases of_decide_eq_true record.symm with ⟨⟨_, shape⟩, -⟩ | ⟨-, cycle⟩
  · cases shape
  · exact cycle

end Environment

end TypeHierarchy
