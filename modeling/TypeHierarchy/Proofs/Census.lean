import TypeHierarchy.Census
import TypeHierarchy.Proofs.DepthFirst

/-!
# Types are entered once

A recorder writes down each type that it enters and goes on to its successors, in order.  Whatever answers
it makes out of theirs, it follows the depth-first walk, and it remembers something for the types of the walk
and for no others (`lists_visitOnce`).  The walk depends on the types alone, so all recorders enter the same
types in the same order, and the census is one of them (`recorders_agree`).
-/

namespace TypeHierarchy.Environment

open Relation

variable {ρ : Type} {env : Environment} {h : Handle} {s : Shape} {seen hs : List Handle}
  {memo : Memo ρ} {budget : Nat}

/-- Writes the type down, visits its successors and makes an answer out of theirs. -/
def recorder (answer : Handle → Shape → List ρ → ρ) :
    Visitor (StateT (List Handle) (Except Violation)) ρ :=
  fun visit h shape => do
    modifyThe (List Handle) (· ++ [h])
    return answer h shape (← (shape.successors true).mapM visit)

theorem foldlM_add {m : Type → Type} [Monad m] [LawfulMonad m] (visit : Handle → m UInt64)
    (hs : List Handle) (total : UInt64) :
    hs.foldlM (fun total next => return total + (← visit next)) total =
      (do return (← hs.mapM visit).foldl (· + ·) total) := by
  induction hs generalizing total with
  | nil => simp
  | cons h hs ih =>
    rw [List.foldlM_cons, List.mapM_cons]
    simp only [bind_assoc, pure_bind, ih, List.foldl_cons]

theorem censusVisitor_eq :
    censusVisitor = recorder fun _ _ counts => counts.foldl (· + ·) 1 := by
  funext visit h s
  rw [censusVisitor, foldlM_add]
  rfl

/-! ## Visits of recorders -/

/-- With the types of `seen` remembered, the computation answers, and writes down and remembers the types
that a walk through `hs` enters. -/
def Lists {α : Type} (env : Environment) (hs : List Handle) (memo : Memo ρ)
    (x : StateT (List Handle) (Except Violation) (α × Memo ρ)) : Prop :=
  ∀ log seen, (∀ y, y ∈ memo ↔ y ∈ seen) →
    ∃ answer after visits, x.run log = .ok ((answer, after), log ++ visits) ∧
      env.DepthFirst seen hs visits ∧ ∀ y, y ∈ after ↔ y ∈ seen ++ visits

/-- The visit of one type. -/
def ListsVisit (env : Environment) (h : Handle) (memo : Memo ρ)
    (x : StateT (List Handle) (Except Violation) (ρ × Memo ρ)) : Prop := env.Lists [h] memo x

theorem lists_mapM {visit : Visit (StateT (List Handle) (Except Violation)) ρ} {start : Memo ρ}
    (each : ∀ h ∈ hs, ∀ memo, (∀ y ∈ start, y ∈ memo) → env.ListsVisit h memo ((visit h).run memo))
    (from_start : ∀ y ∈ start, y ∈ memo) : env.Lists hs memo ((hs.mapM visit).run memo) := by
  induction hs generalizing memo with
  | nil =>
    intro log seen known
    exact ⟨[], memo, [], by simp; rfl, .nil seen, by simpa using known⟩
  | cons h hs ih =>
    intro log seen known
    obtain ⟨first, rest⟩ := List.forall_mem_cons.mp each
    obtain ⟨answer, middle, visits, run, walk, known'⟩ := first memo from_start log seen known
    have grows : ∀ y ∈ start, y ∈ middle := fun y mem =>
      (known' y).mpr (List.mem_append_left _ ((known y).mp (from_start y mem)))
    obtain ⟨answers, after, visits', run', walk', known''⟩ :=
      ih rest grows (log ++ visits) (seen ++ visits) known'
    refine ⟨answer :: answers, after, visits ++ visits', ?_, walk.append walk', ?_⟩
    · rw [List.mapM_cons, StateT.run_bind, StateT.run_bind, run, ok_bind]
      simp [run']
    · simpa using known''

theorem lists_visitOnce (closed : env.Closed) (provisional : ρ)
    (answer : Handle → Shape → List ρ → ρ) (own : env.owns h = true)
    (enough : env.unseen memo ≤ budget) :
    env.ListsVisit h memo ((env.visitOnce provisional (recorder answer) budget h).run memo) := by
  refine visitOnce_rule ?_ ?_ own enough
  · intro h memo result found log seen known
    have mem : h ∈ seen := (known h).mp (mem_of_getElem? found)
    exact ⟨result, memo, [], by simp; rfl, .skip mem (.nil seen), by simpa using known⟩
  · intro h memo s visit shape fresh visits log seen known
    have each (next : Handle) (mem : next ∈ s.successors true) :=
      fun after grows => visits next after (Leads.owns closed ((leads_iff shape).mpr mem)) grows
    have entered (y : Handle) : y ∈ memo.insert h provisional ↔ y ∈ seen ++ [h] := by
      rw [mem_insert_iff, known, List.mem_append, List.mem_singleton, or_comm]
    obtain ⟨answers, after, below, run, walk, known'⟩ :=
      lists_mapM each (fun _ mem => mem) (log ++ [h]) (seen ++ [h]) entered
    have walked := DepthFirst.enter (fun mem => fresh ((known h).mpr mem)) shape walk (.nil _)
    rw [List.append_nil] at walked
    refine ⟨answer h s answers, after.insert h (answer h s answers), h :: below, ?_, walked, ?_⟩
    · show (((((s.successors true).mapM visit).run _).run (log ++ [h]) >>= _) >>= _) = _
      rw [run]
      simp
      rfl
    · intro y
      rw [mem_insert_iff, known', List.append_assoc, List.singleton_append, or_iff_right_of_imp]
      rintro rfl
      simp

/-- A visit with nothing remembered. -/
theorem exists_depthFirst (closed : env.Closed) (own : env.owns h = true) (provisional : ρ)
    (answer : Handle → Shape → List ρ → ρ) (enough : env.size ≤ budget) :
    ∃ result memo visits,
      ((env.visitOnce provisional (recorder answer) budget h).run ∅).run [] =
        .ok ((result, memo), visits) ∧
      env.DepthFirst [] [h] visits ∧ ∀ x, x ∈ memo ↔ x ∈ visits := by
  have fresh : env.unseen (∅ : Memo ρ) ≤ budget := unseen_empty ▸ enough
  exact lists_visitOnce closed provisional answer own fresh [] [] (by simp)

/-- From a type of a reachable environment on, recorders enter the types that members and fields lead to,
each of them once, in depth-first preorder, and afterwards just these types are remembered.  This holds of
the census and of every other recorder, and for every budget that is not less than the number of types. -/
theorem recorders_agree (reachable : env.Reachable) (own : env.owns h = true) :
    ∃ visits : List Handle, visits.Nodup ∧
      (∀ x, x ∈ visits ↔ ReflTransGen (fun x y => env.HasMember x y ∨ env.HasField x y) h x) ∧
      env.DepthFirst [] [h] visits ∧ (∃ routes, FirstRoutes (env.Route [] h) visits routes) ∧
      (∃ total counts, env.census h = .ok ⟨total, visits, counts⟩ ∧ ∀ x, x ∈ counts ↔ x ∈ visits) ∧
      ∀ (ρ : Type) (provisional : ρ) (answer : Handle → Shape → List ρ → ρ) (budget : Nat),
        env.size ≤ budget → ∃ result memo,
          ((env.visitOnce provisional (recorder answer) budget h).run ∅).run [] =
            .ok ((result, memo), visits) ∧ ∀ x, x ∈ memo ↔ x ∈ visits := by
  have closed := reachable.closed
  obtain ⟨total, counts, visits, run, walk, known⟩ := exists_depthFirst closed own 0
    (fun _ _ (counts : List UInt64) => counts.foldl (· + ·) 1) (Nat.le_refl env.size)
  refine ⟨visits, walk.nodup, fun x => leads_true ▸ walk.mem_iff, walk, walk.exists_firstRoutes,
    ⟨total, counts, ?_, known⟩, fun ρ provisional answer budget enough => ?_⟩
  · rw [census, traverse, censusVisitor_eq, run]
    rfl
  · obtain ⟨result, memo, visits', run', walk', known'⟩ :=
      exists_depthFirst closed own provisional answer enough
    cases walk.unique walk'
    exact ⟨result, memo, run', known'⟩

/-- A union with itself among its members, a record that leads back to it, and a second union that leads
back to the record and shares a member with the first. -/
def tangled : Environment :=
  { initial ⟨0⟩ with entries := (initial ⟨0⟩).entries ++
      #[⟨"Tree", .union [⟨⟨0⟩, 9⟩, ⟨⟨0⟩, 4⟩, ⟨⟨0⟩, 8⟩]⟩,
        ⟨"Node", .record [⟨"left", ⟨⟨0⟩, 8⟩⟩, ⟨"right", ⟨⟨0⟩, 10⟩⟩]⟩,
        ⟨"Other", .union [⟨⟨0⟩, 4⟩, ⟨⟨0⟩, 9⟩, ⟨⟨0⟩, 6⟩]⟩] }

theorem reachable_tangled : tangled.Reachable := by
  have made : Environment.after [.declare 0 "Tree" .union, .declare 0 "Node" .record,
      .declare 0 "Other" .union, .addMember 0 ⟨⟨0⟩, 8⟩ ⟨⟨0⟩, 9⟩, .addMember 0 ⟨⟨0⟩, 8⟩ ⟨⟨0⟩, 4⟩,
      .addMember 0 ⟨⟨0⟩, 8⟩ ⟨⟨0⟩, 8⟩, .addField 0 ⟨⟨0⟩, 9⟩ "left" ⟨⟨0⟩, 8⟩,
      .addField 0 ⟨⟨0⟩, 9⟩ "right" ⟨⟨0⟩, 10⟩, .addMember 0 ⟨⟨0⟩, 10⟩ ⟨⟨0⟩, 4⟩,
      .addMember 0 ⟨⟨0⟩, 10⟩ ⟨⟨0⟩, 9⟩, .addMember 0 ⟨⟨0⟩, 10⟩ ⟨⟨0⟩, 6⟩] = tangled := by
    decide +kernel
  exact made ▸ reachable_after _

/-- The shared member is entered from the second union, though the first one has it as well, and the
constants below the shared member are not entered at all. -/
theorem recorders_agree_tangled :
    (∃ total counts, tangled.census ⟨⟨0⟩, 8⟩ =
        .ok ⟨total, [⟨⟨0⟩, 8⟩, ⟨⟨0⟩, 9⟩, ⟨⟨0⟩, 10⟩, ⟨⟨0⟩, 4⟩, ⟨⟨0⟩, 6⟩], counts⟩ ∧
      ⟨⟨0⟩, 4⟩ ∈ counts ∧ ⟨⟨0⟩, 0⟩ ∉ counts) ∧
    ReflTransGen (fun x y => tangled.HasMember x y ∨ tangled.HasField x y) ⟨⟨0⟩, 8⟩ ⟨⟨0⟩, 6⟩ ∧
    ∃ result memo, ((tangled.visitOnce 0 (recorder fun _ _ depths => depths.foldl max 0 + 1) 100
      ⟨⟨0⟩, 8⟩).run ∅).run [] = .ok ((result, memo),
        [⟨⟨0⟩, 8⟩, ⟨⟨0⟩, 9⟩, ⟨⟨0⟩, 10⟩, ⟨⟨0⟩, 4⟩, ⟨⟨0⟩, 6⟩]) := by
  have entered : (tangled.census ⟨⟨0⟩, 8⟩).toOption.map Census.visits =
      some [⟨⟨0⟩, 8⟩, ⟨⟨0⟩, 9⟩, ⟨⟨0⟩, 10⟩, ⟨⟨0⟩, 4⟩, ⟨⟨0⟩, 6⟩] := by decide +kernel
  obtain ⟨visits, -, ahead, -, -, ⟨total, counts, done, known⟩, every⟩ :=
    recorders_agree reachable_tangled (h := ⟨⟨0⟩, 8⟩) (by decide)
  rw [done] at entered
  cases entered
  obtain ⟨result, memo, run, -⟩ :=
    every Nat 0 (fun _ _ depths => depths.foldl max 0 + 1) 100 (by decide)
  refine ⟨⟨total, counts, done, ?_, ?_⟩, (ahead _).mp (by decide), result, memo, run⟩
  · exact (known _).mpr (by decide)
  · exact mt (known _).mp (by decide)

end TypeHierarchy.Environment
