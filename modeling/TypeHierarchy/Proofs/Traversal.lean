import TypeHierarchy.Proofs.Reachable
import TypeHierarchy.Traversal

/-!
# Traversals of closed environments

Every nested visit enters a type that nothing was remembered for, so a budget of one visit for each
such type is never used up.  `visitOnce_rule` says so once for all traversals: what holds of a
remembered answer, and of the visitor's answer whenever it holds of the nested visits, holds of the
whole visit.  A visitor's proof never mentions the budget.
-/

namespace TypeHierarchy.Environment

variable {ρ : Type} {env : Environment} {h : Handle} {memo after : Memo ρ} {answer : ρ}

/-! ## Memos -/

theorem mem_insert_iff {x : Handle} : x ∈ memo.insert h answer ↔ x = h ∨ x ∈ memo := by
  rw [Std.TreeMap.mem_insert, Std.LawfulEqOrd.compare_eq_iff_eq]
  exact or_congr_left eq_comm

theorem getElem?_insert_of_ne {x : Handle} (ne : x ≠ h) :
    (memo.insert h answer)[x]? = memo[x]? := by
  rw [Std.TreeMap.getElem?_insert, if_neg]
  exact fun e => ne (Std.LawfulEqOrd.eq_of_compare e).symm

theorem mem_of_getElem? (found : memo[h]? = some answer) : h ∈ memo := by
  rw [Std.TreeMap.mem_iff_isSome_getElem?, found]
  rfl

theorem not_mem_of_getElem? (found : memo[h]? = none) : h ∉ memo := by
  rw [Std.TreeMap.mem_iff_isSome_getElem?, found]
  exact Bool.false_ne_true

/-- A type for which `true` is remembered has the property. -/
def Trusted (p : Handle → Prop) (memo : Memo Bool) : Prop :=
  ∀ x : Handle, memo[x]? = some true → p x

theorem trusted_empty (p : Handle → Prop) : Trusted p ∅ := fun x hx => by simp at hx

theorem Trusted.insert {p : Handle → Prop} {memo : Memo Bool} {answer : Bool}
    (trusted : Trusted p memo) (right : answer = true → p h) :
    Trusted p (memo.insert h answer) := by
  intro x hx
  by_cases e : x = h
  · subst e
    rw [Std.TreeMap.getElem?_insert_self] at hx
    exact right (Option.some.inj hx)
  · rw [getElem?_insert_of_ne e] at hx
    exact trusted x hx

/-! ## What is left to visit -/

theorem countP_lt_countP {α : Type} {p q : α → Bool} {l : List α} {a : α} (mem : a ∈ l)
    (le : ∀ x ∈ l, p x = true → q x = true) (hp : p a = false) (hq : q a = true) :
    l.countP p < l.countP q := by
  induction l with
  | nil => cases mem
  | cons b l ih =>
    obtain ⟨hb, hl⟩ := List.forall_mem_cons.mp le
    rw [List.countP_cons, List.countP_cons]
    rcases List.mem_cons.mp mem with rfl | mem
    · have := List.countP_mono_left hl
      rw [hp, hq]
      simp only [Bool.false_eq_true, if_false, if_true]
      omega
    · have := ih mem hl
      split
      · rw [if_pos (hb ‹_›)]
        omega
      · omega

/-- How many types nothing is remembered for. -/
def unseen (env : Environment) (memo : Memo ρ) : Nat := env.handles.countP fun h => !memo.contains h

theorem unseen_empty : env.unseen (∅ : Memo ρ) = env.size := by
  simp [unseen, handles]

theorem unseen_le (env : Environment) (grows : ∀ x ∈ memo, x ∈ after) :
    env.unseen after ≤ env.unseen memo := by
  refine List.countP_mono_left fun x _ hx => ?_
  simp only [Bool.not_eq_true', ← Bool.not_eq_true, ← Std.TreeMap.mem_iff_contains] at hx ⊢
  exact fun hm => hx (grows x hm)

theorem unseen_insert_lt (answer : ρ) (own : env.owns h = true) (fresh : h ∉ memo) :
    env.unseen (memo.insert h answer) < env.unseen memo := by
  refine countP_lt_countP (env.mem_handles.mpr own) (fun x _ hx => ?_) ?_ ?_
  · simp only [Bool.not_eq_true', ← Bool.not_eq_true, ← Std.TreeMap.mem_iff_contains] at hx ⊢
    exact fun hm => hx (mem_insert_iff.mpr (.inr hm))
  · simp
  · simpa only [Bool.not_eq_true', ← Bool.not_eq_true, ← Std.TreeMap.mem_iff_contains] using fresh

/-! ## The rule -/

variable {m : Type → Type} [Monad m] [LawfulMonad m] [MonadLiftT (Except Violation) m]
  [LawfulMonadLiftT (Except Violation) m] {provisional : ρ} {visitor : Visitor m ρ} {budget : Nat}

theorem visitOnce_rule {Good : Handle → Memo ρ → m (ρ × Memo ρ) → Prop}
    (seen : ∀ h memo answer, memo[h]? = some answer → Good h memo (pure (answer, memo)))
    (fresh : ∀ h memo shape (visit : Visit m ρ), env.shape h = .ok shape → h ∉ memo →
      (∀ next after, env.owns next = true → (∀ x ∈ memo.insert h provisional, x ∈ after) →
        Good next after ((visit next).run after)) →
      Good h memo (do
        let (answer, after) ← (visitor visit h shape).run (memo.insert h provisional)
        return (answer, after.insert h answer)))
    (own : env.owns h = true) (enough : env.unseen memo ≤ budget) :
    Good h memo ((env.visitOnce provisional visitor budget h).run memo) := by
  induction budget generalizing h memo with
  | zero =>
    cases found : memo[h]? with
    | some answer =>
      rw [run_visitOnce_of_some found]
      exact seen h memo answer found
    | none =>
      have := unseen_insert_lt provisional own (not_mem_of_getElem? found)
      omega
  | succ budget ih =>
    cases found : memo[h]? with
    | some answer =>
      rw [run_visitOnce_of_some found]
      exact seen h memo answer found
    | none =>
      have unknown : h ∉ memo := not_mem_of_getElem? found
      obtain ⟨shape, hs⟩ := exists_shape own
      rw [run_visitOnce_of_none found, hs]
      have lifted : (liftM (.ok shape : Except Violation Shape) : m Shape) = pure shape :=
        monadLift_pure shape
      rw [lifted, pure_bind]
      refine fresh h memo shape _ hs unknown fun next after own' grows => ih own' ?_
      have := unseen_insert_lt provisional own unknown
      have := env.unseen_le grows
      omega

end TypeHierarchy.Environment
