import TypeHierarchy.Proofs.Pairwise
import TypeHierarchy.Proofs.Spelling
import TypeHierarchy.Rendering

/-!
# Queries that always answer

A query follows the handles it finds in types to any depth, and every look-up and every nested query
refuses a handle of another environment.  In a reachable environment none of them ever does: a query
about types of the environment answers, and a bound consists of such types again
(`queries_answer`).
-/

namespace TypeHierarchy

/-- The computation ends with an answer and not with a violation. -/
def Answers {α : Type} (x : Except Violation α) : Prop := ∃ a, x = .ok a

section Loops

variable {α β : Type} {l : List α}

theorem Answers.bind {x : Except Violation α} {f : α → Except Violation β} (first : Answers x)
    (second : ∀ a, Answers (f a)) : Answers (x >>= f) := by
  obtain ⟨a, rfl⟩ := first
  exact second a

theorem answers_pure (a : α) : Answers (pure a) := ⟨a, rfl⟩

theorem answers_mapM {f : α → Except Violation β} (each : ∀ x ∈ l, Answers (f x)) :
    Answers (l.mapM f) := by
  induction l with
  | nil => exact answers_pure []
  | cons x l ih =>
    obtain ⟨head, tail⟩ := List.forall_mem_cons.mp each
    rw [List.mapM_cons]
    exact head.bind fun _ => (ih tail).bind fun _ => answers_pure _

end Loops

namespace Environment

open scoped Classical

variable {env : Environment} {a b h : Handle} {types left right : TypeSet} {trait : Trait}

/-! ## Texts -/

theorem answers_name (own : env.owns h = true) : Answers (env.name h) := exists_name own

theorem answers_showType (closed : env.Closed) (own : env.owns h = true) :
    Answers (env.showType h) := by
  obtain ⟨s, hs⟩ := exists_shape own
  have named (r : Handle) (mem : r ∈ s.references) : Answers (env.name r) :=
    answers_name (closed.owns_of_mem hs mem)
  refine (answers_name own).bind fun name => ?_
  rw [hs, ok_bind]
  cases s with
  | constant kind => exact answers_pure _
  | subset base primitive => exact (named base List.mem_cons_self).bind fun _ => answers_pure _
  | union members => exact (answers_mapM named).bind fun _ => answers_pure _
  | record fields =>
    cases fields with
    | nil => exact answers_pure _
    | cons field fields =>
      refine (answers_mapM fun field mem => ?_).bind fun _ => answers_pure _
      exact (named field.type (List.mem_map_of_mem mem)).bind fun _ => answers_pure _

theorem answers_showSet (own : env.OwnsAll types) : Answers (env.showSet types) := by
  cases types with
  | all => exact answers_pure _
  | finite handles =>
    exact (answers_mapM fun h mem => answers_name (own h mem)).bind fun _ => answers_pure _

/-! ## Sets of types -/

theorem answers_areSubtypes (closed : env.Closed) {handles : HandleSet}
    (own : ∀ h ∈ handles, env.owns h = true) (own_b : env.owns b = true) :
    Answers (env.areSubtypes (.finite handles) b).outcome :=
  ⟨_, Traced.outcome_allM fun h mem => isSubtype_eq closed (own h mem) own_b⟩

theorem answers_allHaveTrait (closed : env.Closed) (own : env.OwnsAll types) :
    Answers (env.allHaveTrait types trait) := by
  cases types with
  | all => exact answers_pure _
  | finite handles =>
    rw [allHaveTrait]
    split
    · exact answers_pure _
    · have each := allM_congr fun h mem => hasTrait_eq closed (own h mem) trait
      exact ⟨_, each.trans List.allM_pure⟩

theorem answers_someHasTrait (closed : env.Closed) (own : env.OwnsAll types) :
    Answers (env.someHasTrait types trait) := by
  cases types with
  | all => exact answers_pure _
  | finite handles =>
    have each := anyM_congr fun h mem => hasTrait_eq closed (own h mem) trait
    exact ⟨_, each.trans List.anyM_pure⟩

/-! ## Bounds -/

theorem exists_pairBound_owned (closed : env.Closed) (own_a : env.owns a = true)
    (own_b : env.owns b = true) (bound : Bound) :
    ∃ bounds, (env.pairBound bound a b).outcome = .ok bounds ∧
      ∀ h ∈ bounds, env.owns h = true := by
  obtain ⟨bounds, done, mem⟩ : (env.pairBound bound a b).Yields (env.IsBound bound a b) :=
    pairBound_yields closed own_a own_b
  exact ⟨bounds, done, fun h hh => ((mem h).mp hh).owns closed own_a own_b⟩

theorem exists_setBound_owned (closed : env.Closed) (own : env.OwnsAll types) (bound : Bound) :
    ∃ bounds, (env.setBound bound types).outcome = .ok bounds ∧
      ∀ h ∈ bounds, env.owns h = true := by
  cases types with
  | all => exact ⟨∅, rfl, by simp⟩
  | finite handles =>
    refine @setBound_rule env bound closed (fun _ running => ∀ h ∈ running, env.owns h = true)
      (fun _ _ _ _ own => own) ?_ (by simp) (by simp) handles own
    intro _ running next reduced own_running own_next _ mem h hh
    exact ((mem h).mp hh).owns closed own_running (List.forall_mem_singleton.mpr own_next)

theorem exists_pairwiseBound_owned (closed : env.Closed) (own_left : env.OwnsAll left)
    (own_right : env.OwnsAll right) (bound : Bound) :
    ∃ result, (env.pairwiseBound bound left right).outcome = .ok result ∧ env.OwnsAll result := by
  cases left with
  | all => exact ⟨right, pairwiseBound_all_left right, own_right⟩
  | finite lefts =>
    cases right with
    | all => exact ⟨.finite lefts, pairwiseBound_all_right _, own_left⟩
    | finite rights =>
      obtain ⟨bounds, done, mem⟩ := exists_pairwiseBound closed own_left own_right
      exact ⟨.finite bounds, done, fun h hh => ((mem h).mp hh).owns closed own_left own_right⟩

/-! ## All queries -/

/-- Asked about types of its own, an environment answers every query, and a bound consists of types of
its own again.  The universal set may stand wherever the types of a set are not gone through one by
one. -/
theorem queries_answer (reachable : env.Reachable) :
    (∀ a b, env.owns a = true → env.owns b = true →
      Answers (env.reducesTo a b) ∧ Answers (env.isSubtype a b).outcome ∧
      ∀ bound, ∃ bounds, (env.pairBound bound a b).outcome = .ok bounds ∧
        ∀ h ∈ bounds, env.owns h = true) ∧
    (∀ h, env.owns h = true →
      Answers (env.isRecursive h) ∧ (∀ trait, Answers (env.hasTrait h trait)) ∧
      Answers (env.attributeOf h) ∧ Answers (env.qualifier h) ∧ Answers (env.showType h)) ∧
    (∀ (handles : HandleSet) (b : Handle), (∀ h ∈ handles, env.owns h = true) →
      env.owns b = true → Answers (env.areSubtypes (.finite handles) b).outcome) ∧
    (∀ types, env.OwnsAll types →
      (∀ trait, Answers (env.allHaveTrait types trait) ∧ Answers (env.someHasTrait types trait)) ∧
      Answers (env.showSet types) ∧
      ∀ bound, ∃ bounds, (env.setBound bound types).outcome = .ok bounds ∧
        ∀ h ∈ bounds, env.owns h = true) ∧
    ∀ left right, env.OwnsAll left → env.OwnsAll right →
      ∀ bound, ∃ result, (env.pairwiseBound bound left right).outcome = .ok result ∧
        env.OwnsAll result := by
  have closed := reachable.closed
  refine ⟨fun a b own_a own_b => ?_, fun h own => ?_, fun handles b own own_b => ?_,
    fun types own => ?_, fun left right own_left own_right bound => ?_⟩
  · exact ⟨⟨_, reducesTo_eq closed own_a b⟩, ⟨_, isSubtype_eq closed own_a own_b⟩,
      exists_pairBound_owned closed own_a own_b⟩
  · obtain ⟨text, -, spelled, -⟩ := exists_qualifier_spells closed own
    exact ⟨⟨_, isRecursive_eq closed own⟩, fun trait => ⟨_, hasTrait_eq closed own trait⟩,
      ⟨_, attributeOf_eq closed own⟩, ⟨text, spelled⟩, answers_showType closed own⟩
  · exact answers_areSubtypes closed own own_b
  · exact ⟨fun trait => ⟨answers_allHaveTrait closed own, answers_someHasTrait closed own⟩,
      answers_showSet own, exists_setBound_owned closed own⟩
  · exact exists_pairwiseBound_owned closed own_left own_right bound

/-- The record on two interlocking cycles has a qualifier, the unions around the cycles have a bound,
and the universal set is no obstacle to the pairwise form. -/
theorem queries_answer_interlocked :
    Answers (interlocked.qualifier ⟨⟨0⟩, 8⟩) ∧
    (∃ bounds, (interlocked.setBound .greatest
        (.ofList [⟨⟨0⟩, 9⟩, ⟨⟨0⟩, 10⟩, ⟨⟨0⟩, 11⟩])).outcome = .ok bounds ∧
      ∀ h ∈ bounds, interlocked.owns h = true) ∧
    ∃ result, (interlocked.pairwiseBound .least .all
        (.ofList [⟨⟨0⟩, 8⟩, ⟨⟨0⟩, 12⟩])).outcome = .ok result ∧ interlocked.OwnsAll result := by
  obtain ⟨-, each, -, sets, pairs⟩ := queries_answer reachable_interlocked
  obtain ⟨-, -, -, spelled, -⟩ := each ⟨⟨0⟩, 8⟩ (by decide)
  have unions : ∀ h ∈ (.ofList [⟨⟨0⟩, 9⟩, ⟨⟨0⟩, 10⟩, ⟨⟨0⟩, 11⟩] : HandleSet),
      interlocked.owns h = true := by decide
  have records : ∀ h ∈ (.ofList [⟨⟨0⟩, 8⟩, ⟨⟨0⟩, 12⟩] : HandleSet),
      interlocked.owns h = true := by decide
  obtain ⟨-, -, bounds⟩ := sets (.ofList [⟨⟨0⟩, 9⟩, ⟨⟨0⟩, 10⟩, ⟨⟨0⟩, 11⟩]) unions
  exact ⟨spelled, bounds .greatest, pairs .all (.ofList [⟨⟨0⟩, 8⟩, ⟨⟨0⟩, 12⟩]) trivial records .least⟩

end Environment

end TypeHierarchy
