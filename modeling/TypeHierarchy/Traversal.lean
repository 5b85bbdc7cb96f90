import Std.Data.TreeMap
import TypeHierarchy.Environment

/-!
# Traversals

Types refer to each other in cycles, so a traversal remembers an answer for each type it has entered
and never enters a type twice.  While a type is being visited its remembered answer is provisional:
whoever comes back to the type sees the provisional answer, everyone after the visit the final one.

A visitor answers for one type, given its shape and the means to visit other types.  `visitOnce` ties
the knot.  Its budget bounds the nesting of visits; since every nested visit enters a new type, the
number of types is enough.
-/

namespace TypeHierarchy

/-- The answers remembered so far. -/
abbrev Memo (ρ : Type) := Std.TreeMap Handle ρ

/-- A computation of an answer for a type, on top of the remembered ones. -/
abbrev Visit (m : Type → Type) (ρ : Type) := Handle → StateT (Memo ρ) m ρ

/-- Answers for a type of the given shape, asking for the answers of other types. -/
abbrev Visitor (m : Type → Type) (ρ : Type) := Visit m ρ → Handle → Shape → StateT (Memo ρ) m ρ

namespace Environment

variable {m : Type → Type} [Monad m] [MonadLiftT (Except Violation) m] {ρ : Type}

/-- The remembered answer for the type, or else the visitor's. -/
def visitOnce (env : Environment) (provisional : ρ) (visitor : Visitor m ρ) (budget : Nat) :
    Visit m ρ := fun h => do
  match (← get)[h]? with
  | some answer => return answer
  | none =>
    match budget with
    | 0 => monadLift (Except.error .budgetExhausted : Except Violation ρ)
    | budget + 1 =>
      modify (·.insert h provisional)
      let answer ← visitor (visitOnce env provisional visitor budget) h (← env.shape h)
      modify (·.insert h answer)
      return answer

/-- The answer for a type with nothing remembered, and all that is remembered after it. -/
def traverse (env : Environment) (provisional : ρ) (visitor : Visitor m ρ) (h : Handle) :
    m (ρ × Memo ρ) :=
  (env.visitOnce provisional visitor env.size h).run ∅

variable [LawfulMonad m] {env : Environment} {provisional : ρ} {visitor : Visitor m ρ}
  {budget : Nat} {h : Handle} {memo : Memo ρ}

theorem run_visitOnce_of_some {answer : ρ} (seen : memo[h]? = some answer) :
    (env.visitOnce provisional visitor budget h).run memo = pure (answer, memo) := by
  unfold visitOnce
  simp [seen]

theorem run_visitOnce_of_none (fresh : memo[h]? = none) :
    (env.visitOnce provisional visitor (budget + 1) h).run memo = (do
      let shape ← env.shape h
      let (answer, memo) ← (visitor (env.visitOnce provisional visitor budget) h shape).run
        (memo.insert h provisional)
      return (answer, memo.insert h answer)) := by
  rw [visitOnce]
  simp [fresh]

end Environment

end TypeHierarchy
