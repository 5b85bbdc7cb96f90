import Mathlib.Order.WellFoundedSet
import TypeHierarchy.Bounds
import TypeHierarchy.Proofs.Transitivity

/-!
# The best of several types

A type outranks another when it lies strictly below it, or strictly above it, as the bound asks.
Subtyping is not transitive, but a chain of strict steps never comes back to its start
(`not_strictlyBelow_cycle`): a chain to a union never breaks, nor does a chain from any other type.
So above every candidate there is one that no candidate outranks (`exists_best`), and the reduction
to an antichain keeps exactly those (`antichain_yields`).
-/

namespace TypeHierarchy

namespace Environment

open scoped Classical
open Relation

/-- The first type is below the second, and not the other way round. -/
def StrictlyBelow (env : Environment) (a b : Handle) : Prop := env.Below a b ∧ ¬ env.Below b a

/-- The first type is a better bound than the second. -/
def Outranks (env : Environment) : Bound → Handle → Handle → Prop
  | .least, other, h => env.StrictlyBelow other h
  | .greatest, other, h => env.StrictlyBelow h other

/-- A candidate that no candidate outranks. -/
def Best (env : Environment) (bound : Bound) (candidate : Handle → Prop) (h : Handle) : Prop :=
  candidate h ∧ ∀ other, candidate other → ¬ env.Outranks bound other h

variable {env : Environment} {a b h other : Handle} {bound : Bound} {candidate : Handle → Prop}

/-! ## Chains of strict steps -/

theorem below_of_chain_to_union (union : env.IsUnion b)
    (chain : ReflTransGen env.StrictlyBelow a b) : env.Below a b := by
  induction chain using ReflTransGen.head_induction_on with
  | refl => exact .refl b
  | head step _ ih => exact below_trans step.1 ih (.inl union)

theorem below_of_chain_from_plain (plain : ¬ env.IsUnion a)
    (chain : ReflTransGen env.StrictlyBelow a b) : env.Below a b := by
  induction chain with
  | refl => exact .refl a
  | tail _ step ih => exact below_trans ih step.1 (.inr fun hollow => plain hollow.isUnion)

theorem not_strictlyBelow_cycle (env : Environment) (a : Handle) :
    ¬ TransGen env.StrictlyBelow a a := by
  intro cycle
  by_cases union : env.IsUnion a
  · obtain ⟨next, step, back⟩ := TransGen.head'_iff.mp cycle
    exact step.2 (below_of_chain_to_union union back)
  · obtain ⟨last, chain, step⟩ := TransGen.tail'_iff.mp cycle
    exact step.2 (below_of_chain_from_plain union chain)

theorem not_outranks_cycle (env : Environment) (bound : Bound) (a : Handle) :
    ¬ TransGen (env.Outranks bound) a a := by
  cases bound with
  | least => exact env.not_strictlyBelow_cycle a
  | greatest => exact fun cycle => env.not_strictlyBelow_cycle a (transGen_swap.mp cycle)

instance (env : Environment) (bound : Bound) :
    IsStrictOrder Handle (TransGen (env.Outranks bound)) where
  irrefl := env.not_outranks_cycle bound
  trans _ _ _ := TransGen.trans

/-! ## The best candidates -/

/-- From every candidate outranking leads to one that no candidate outranks. -/
theorem exists_best (own : ∀ h, candidate h → env.owns h = true) (mem : candidate h) :
    ∃ best, env.Best bound candidate best ∧ ReflTransGen (env.Outranks bound) best h := by
  have finite : {h | candidate h}.Finite :=
    (List.finite_toSet env.handles).subset fun h mem => env.mem_handles.mpr (own h mem)
  have descends := finite.wellFoundedOn (r := TransGen (env.Outranks bound))
  refine descends.induction (P := fun h => ∃ best, env.Best bound candidate best ∧
    ReflTransGen (env.Outranks bound) best h) mem fun h mem ih => ?_
  by_cases best : env.Best bound candidate h
  · exact ⟨h, best, .refl⟩
  · simp only [Best, not_and, not_forall, not_not] at best
    obtain ⟨other, mem_other, outranks⟩ := best mem
    obtain ⟨top, best_top, chain⟩ := ih other mem_other (.single outranks)
    exact ⟨top, best_top, chain.tail outranks⟩

/-! ## The reduction -/

theorem outcome_strictlyBelow (closed : env.Closed) (own_a : env.owns a = true)
    (own_b : env.owns b = true) :
    (env.strictlyBelow a b).outcome = .ok (decide (env.StrictlyBelow a b)) := by
  unfold strictlyBelow
  by_cases same : a = b
  · subst same
    rw [if_pos rfl, decide_eq_false fun strict => strict.2 (.refl a)]
    rfl
  rw [if_neg same, Traced.outcome_bind_of_ok (isSubtype_eq closed own_a own_b)]
  by_cases below : env.Below a b
  · rw [decide_eq_true below, if_pos rfl,
      Traced.outcome_bind_of_ok (isSubtype_eq closed own_b own_a), Traced.outcome_pure,
      Except.ok.injEq, Bool.eq_iff_iff]
    simp [StrictlyBelow, below]
  · rw [decide_eq_false below, if_neg Bool.false_ne_true,
      decide_eq_false fun strict => below strict.1]
    rfl

theorem outcome_outranks (closed : env.Closed) (own_other : env.owns other = true)
    (own : env.owns h = true) :
    (env.outranks bound other h).outcome = .ok (decide (env.Outranks bound other h)) := by
  cases bound with
  | least => exact outcome_strictlyBelow closed own_other own
  | greatest => exact outcome_strictlyBelow closed own own_other

/-- The reduction of a list of all candidates keeps the best of them. -/
theorem antichain_yields (closed : env.Closed) (own : ∀ h, candidate h → env.owns h = true)
    {candidates : List Handle} (listed : ∀ h, h ∈ candidates ↔ candidate h) :
    (env.antichain bound candidates).Yields (env.Best bound candidate) := by
  have outranked (h : Handle) (mem : h ∈ candidates) :
      (candidates.anyM fun other => env.outranks bound other h).outcome =
        .ok (candidates.any fun other => decide (env.Outranks bound other h)) :=
    Traced.outcome_anyM fun other mem' =>
      outcome_outranks closed (own other ((listed other).mp mem')) (own h ((listed h).mp mem))
  have kept := Traced.outcome_filterM fun h mem =>
    Traced.outcome_bind_of_ok (f := fun yes => pure !yes) (outranked h mem)
  refine ⟨_, Traced.outcome_bind_of_ok kept, fun h => ?_⟩
  simp [Best, listed]

end Environment

end TypeHierarchy
