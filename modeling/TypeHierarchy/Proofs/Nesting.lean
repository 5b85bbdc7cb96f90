import TypeHierarchy.Proofs.CommonSupertypes

/-!
# Nested checks

A check puts questions about the members of one of its two unions to nested checks, and does so only
where neither of its types is recursive.  `Asks` says which questions these may be; no others reach a
nested check (`subtypeStep_congr`).  The unions that can be reached from the two types of a question
get fewer with every question (`Asks.questionRank_lt`), so a chain of questions nested in each other
has at most two links for each union and one more.  A budget of that many checks is never used up,
and any larger one gives the same answer and the same lines (`isSubtype_nesting`).
-/

namespace TypeHierarchy.Environment

open scoped Classical
open Relation

/-- The check of the first pair may have a check of the second one nested in it. -/
inductive Asks (env : Environment) : Handle × Handle → Handle × Handle → Prop
  | left {a b member : Handle} {members others : List Handle}
      (ha : env.shape a = .ok (.union members)) (hb : env.shape b = .ok (.union others))
      (na : ¬ env.Recursive a) (nb : ¬ env.Recursive b) (mem : member ∈ members) :
      Asks env (a, b) (member, b)
  | right {a b other : Handle} {s : Shape} {others : List Handle} (ha : env.shape a = .ok s)
      (plain : s.isUnion = false) (hb : env.shape b = .ok (.union others))
      (na : ¬ env.Recursive a) (nb : ¬ env.Recursive b) (mem : other ∈ others) :
      Asks env (a, b) (a, other)

/-- How many unions can be reached from the two types, each counted on its own. -/
noncomputable def questionRank (env : Environment) (question : Handle × Handle) : Nat :=
  env.unionRank question.1 + env.unionRank question.2

variable {env : Environment} {a b : Handle} {outer inner : Handle × Handle}

/-! ## Chains of questions -/

theorem Asks.questionRank_lt (asks : env.Asks outer inner) :
    env.questionRank inner < env.questionRank outer := by
  cases asks with
  | left ha _ na _ mem => exact Nat.add_lt_add_right (unionRank_lt ha na mem) _
  | right _ _ hb _ nb mem => exact Nat.add_lt_add_left (unionRank_lt hb nb mem) _

theorem questionRank_le (env : Environment) (question : Handle × Handle) :
    env.questionRank question ≤ 2 * env.unionCount := by
  have first := env.unionRank_le question.1
  have second := env.unionRank_le question.2
  unfold questionRank
  omega

theorem wellFounded_asks (env : Environment) :
    WellFounded fun inner outer => env.Asks outer inner :=
  Subrelation.wf Asks.questionRank_lt (measure env.questionRank).wf

theorem length_le_questionRank {rest : List (Handle × Handle)}
    (chain : (outer :: rest).IsChain env.Asks) : rest.length ≤ env.questionRank outer := by
  induction rest generalizing outer with
  | nil => exact Nat.zero_le _
  | cons inner rest ih =>
    obtain ⟨asks, chain⟩ := List.isChain_cons_cons.mp chain
    have drops := asks.questionRank_lt
    have tail := ih chain
    simp only [List.length_cons]
    omega

theorem length_le_of_isChain {chain : List (Handle × Handle)} (nested : chain.IsChain env.Asks) :
    chain.length ≤ 2 * env.unionCount + 1 := by
  cases chain with
  | nil => exact Nat.zero_le _
  | cons outer rest =>
    have first := length_le_questionRank nested
    have bound := env.questionRank_le outer
    simp only [List.length_cons]
    omega

/-! ## One check -/

/-- A check depends on the nested checks only through the questions it may ask. -/
theorem subtypeStep_congr (closed : env.Closed) (own_a : env.owns a = true)
    (own_b : env.owns b = true) {nested nested' : Handle → Handle → Traced Bool}
    (same : ∀ p q, env.Asks (a, b) (p, q) → nested p q = nested' p q) :
    env.subtypeStep nested a b = env.subtypeStep nested' a b := by
  obtain ⟨s, ha⟩ := exists_shape own_a
  obtain ⟨t, hb⟩ := exists_shape own_b
  unfold subtypeStep
  rw [Traced.lift_bind (reducesTo_eq closed own_a b), Traced.lift_bind (reducesTo_eq closed own_a b),
    Traced.lift_orM (isRecursive_eq closed own_a) (isRecursive_eq closed own_b), pure_bind, pure_bind,
    ← Bool.decide_or, Traced.lift_bind hb, Traced.lift_bind hb]
  split
  · rfl
  split
  · rfl
  split
  · rfl
  rename_i cyclic
  obtain ⟨na, nb⟩ := not_or.mp (of_decide_eq_false (Bool.not_eq_true _ ▸ cyclic))
  cases t with
  | constant | subset | record => rfl
  | union others =>
    dsimp only
    rw [Traced.lift_bind ha, Traced.lift_bind ha]
    cases s with
    | union members => exact allM_congr fun m mem => same m b (.left ha hb na nb mem)
    | constant | subset | record =>
      exact anyM_congr fun m mem => same a m (.right ha rfl hb na nb mem)

/-- The two types of a nested question are the environment's own. -/
theorem Asks.owns (closed : env.Closed) (asks : env.Asks outer inner) :
    env.owns inner.1 = true ∧ env.owns inner.2 = true := by
  cases asks with
  | left ha hb _ _ mem => exact ⟨closed.owns_of_mem ha mem, owns_of_shape hb⟩
  | right ha _ hb _ _ mem => exact ⟨owns_of_shape ha, closed.owns_of_mem hb mem⟩

/-! ## Budgets -/

/-- Budgets that are large enough for a question agree on the answer and on the lines. -/
theorem isSubtypeWithin_congr (closed : env.Closed) {budget budget' : Nat}
    (own_a : env.owns a = true) (own_b : env.owns b = true)
    (enough : env.questionRank (a, b) < budget) (enough' : env.questionRank (a, b) < budget') :
    env.isSubtypeWithin budget a b = env.isSubtypeWithin budget' a b := by
  induction budget generalizing budget' a b with
  | zero => omega
  | succ budget ih =>
    cases budget' with
    | zero => omega
    | succ budget' =>
      have step : env.subtypeStep (env.isSubtypeWithin budget) a b =
          env.subtypeStep (env.isSubtypeWithin budget') a b := by
        refine subtypeStep_congr closed own_a own_b fun p q asks => ?_
        obtain ⟨own_p, own_q⟩ := asks.owns closed
        have drops := asks.questionRank_lt
        exact ih own_p own_q (by omega) (by omega)
      rw [isSubtypeWithin, isSubtypeWithin, step]

/-- The check with no budget: the rules for two types, with the check itself for the nested
questions. -/
theorem isSubtype_eq_query (closed : env.Closed) (own_a : env.owns a = true)
    (own_b : env.owns b = true) :
    env.isSubtype a b = (do
      env.requireOwn .foreignSubtypeQuery a
      env.requireOwn .foreignSubtypeQuery b
      Traced.within .subtypeCheck (← env.name a) (← env.name b) do
        let result ← env.subtypeStep env.isSubtype a b
        Traced.emit (.subtypeChecked result)
        return result) := by
  have step : env.subtypeStep (env.isSubtypeWithin (2 * env.unionCount)) a b =
      env.subtypeStep env.isSubtype a b := by
    refine subtypeStep_congr closed own_a own_b fun p q asks => ?_
    obtain ⟨own_p, own_q⟩ := asks.owns closed
    have drops := asks.questionRank_lt
    have most := env.questionRank_le (a, b)
    exact isSubtypeWithin_congr closed own_p own_q (by omega) (by omega)
  rw [← step]
  rfl

/-- Checks nested in each other ask about ever fewer unions: there is no endless chain of them, and
none has more than two checks for each union and one more.  A budget of that many checks gives an
answer, a larger one the same answer and lines, and so the check is what it says with no budget: the
rules for two types, with the check itself for the nested questions. -/
theorem isSubtype_nesting (reachable : env.Reachable) :
    (∀ a b nested nested', env.owns a = true → env.owns b = true →
      (∀ p q, env.Asks (a, b) (p, q) → nested p q = nested' p q) →
      env.subtypeStep nested a b = env.subtypeStep nested' a b) ∧
    (WellFounded fun inner outer => env.Asks outer inner) ∧
    (∀ chain : List (Handle × Handle), chain.IsChain env.Asks →
      chain.length ≤ 2 * env.unionCount + 1) ∧
    ∀ a b, env.owns a = true → env.owns b = true →
      (∃ answer, (env.isSubtypeWithin (2 * env.unionCount + 1) a b).outcome = .ok answer) ∧
      (∀ budget, 2 * env.unionCount + 1 ≤ budget →
        env.isSubtypeWithin budget a b = env.isSubtypeWithin (2 * env.unionCount + 1) a b) ∧
      env.isSubtype a b = (do
        env.requireOwn .foreignSubtypeQuery a
        env.requireOwn .foreignSubtypeQuery b
        Traced.within .subtypeCheck (← env.name a) (← env.name b) do
          let result ← env.subtypeStep env.isSubtype a b
          Traced.emit (.subtypeChecked result)
          return result) := by
  have closed := reachable.closed
  refine ⟨fun a b _ _ own_a own_b => subtypeStep_congr closed own_a own_b, env.wellFounded_asks,
    fun chain => length_le_of_isChain, fun a b own_a own_b => ⟨?_, fun budget enough => ?_, ?_⟩⟩
  · exact ⟨_, isSubtype_eq closed own_a own_b⟩
  · have most := env.questionRank_le (a, b)
    exact isSubtypeWithin_congr closed own_a own_b (by omega) (by omega)
  · exact isSubtype_eq_query closed own_a own_b

/-- Three checks nested in the one that finds the smaller union below the larger one. -/
theorem isSubtype_nesting_nestedUnions :
    [(⟨⟨0⟩, 8⟩, ⟨⟨0⟩, 9⟩), (⟨⟨0⟩, 4⟩, ⟨⟨0⟩, 9⟩), (⟨⟨0⟩, 4⟩, ⟨⟨0⟩, 8⟩),
      (⟨⟨0⟩, 4⟩, (⟨⟨0⟩, 4⟩ : Handle))].IsChain nestedUnions.Asks ∧
    2 * nestedUnions.unionCount + 1 = 5 ∧
    nestedUnions.isSubtypeWithin 100 ⟨⟨0⟩, 8⟩ ⟨⟨0⟩, 9⟩ =
      nestedUnions.isSubtypeWithin 5 ⟨⟨0⟩, 8⟩ ⟨⟨0⟩, 9⟩ := by
  have plain (i : Nat) (within : i < 10)
      (no : (nestedUnions.isRecursive ⟨⟨0⟩, i⟩).toOption = some false) :
      ¬ nestedUnions.Recursive ⟨⟨0⟩, i⟩ := by
    have decided := isRecursive_eq reachable_nestedUnions.closed
      ((owns_iff nestedUnions).mpr ⟨rfl, within⟩ : nestedUnions.owns ⟨⟨0⟩, i⟩ = true)
    exact of_decide_eq_false (Except.ok.inj (decided.symm.trans (eq_ok_of_toOption no)))
  have primitive := plain 4 (by decide) (by decide +kernel)
  have pair := plain 8 (by decide) (by decide +kernel)
  have triple := plain 9 (by decide) (by decide +kernel)
  obtain ⟨-, -, -, checks⟩ := isSubtype_nesting reachable_nestedUnions
  obtain ⟨-, same, -⟩ := checks ⟨⟨0⟩, 8⟩ ⟨⟨0⟩, 9⟩ (by decide) (by decide)
  refine ⟨?_, rfl, same 100 (by decide)⟩
  refine .cons_cons (.left rfl rfl pair triple (by decide)) ?_
  refine .cons_cons (.right rfl rfl rfl primitive triple (by decide)) ?_
  exact .cons_cons (.right rfl rfl rfl primitive pair (by decide)) (.singleton _)

end TypeHierarchy.Environment
