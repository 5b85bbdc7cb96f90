import Mathlib.Logic.Relation
import TypeHierarchy.Proofs.Traversal

/-!
# Types with no cycle ahead

The queries go from type to type along steps of different kinds: to bases, to members, to fields.
Whatever the steps, a type with no cycle ahead (`Acyclic`) reaches fewer types with each of them
(`Acyclic.reach_lt`), because the type itself is left behind for good.  So its paths are no longer than
the environment has types, and what passes to a type from all types one step away holds of the type
(`Acyclic.induction`).
-/

namespace TypeHierarchy

open scoped Classical
open Relation

/-- No path of the steps leads from the type into a cycle. -/
def Acyclic (step : Handle → Handle → Prop) (h : Handle) : Prop :=
  ∀ x, ReflTransGen step h x → ¬ TransGen step x x

variable {step : Handle → Handle → Prop} {h next : Handle}

theorem Acyclic.ahead (acyclic : Acyclic step h) (first : step h next) : Acyclic step next :=
  fun x path => acyclic x (.head first path)

theorem Acyclic.no_return (acyclic : Acyclic step h) (first : step h next) :
    ¬ ReflTransGen step next h :=
  fun back => acyclic h .refl (.head' first back)

/-- Steps that lead downwards never come to a cycle. -/
theorem acyclic_of_lt (rank : Handle → Nat) (falls : ∀ x y, step x y → rank y < rank x)
    (h : Handle) : Acyclic step h := by
  have lower {x y : Handle} (path : TransGen step x y) : rank y < rank x := by
    induction path with
    | single last => exact falls _ _ last
    | tail _ last ih => exact Nat.lt_trans (falls _ _ last) ih
  exact fun x _ cycle => absurd (lower cycle) (Nat.lt_irrefl _)

namespace Environment

/-- How many types of the environment the steps lead to, the type itself included. -/
noncomputable def reach (env : Environment) (step : Handle → Handle → Prop) (h : Handle) : Nat :=
  env.handles.countP fun x => decide (ReflTransGen step h x)

variable {env : Environment}

theorem reach_le_size (step : Handle → Handle → Prop) (h : Handle) :
    env.reach step h ≤ env.size := by
  have all : env.handles.length = env.size := by rw [handles, List.length_map, List.length_range]
  exact all ▸ List.countP_le_length

theorem reach_pos (step : Handle → Handle → Prop) {h : Handle} (own : env.owns h = true) :
    0 < env.reach step h :=
  List.countP_pos_iff.mpr ⟨h, env.mem_handles.mpr own, decide_eq_true .refl⟩

end Environment

theorem Acyclic.reach_lt {env : Environment} (acyclic : Acyclic step h) (own : env.owns h = true)
    (first : step h next) : env.reach step next < env.reach step h := by
  refine Environment.countP_lt_countP (env.mem_handles.mpr own) (fun x _ ahead => ?_) ?_ ?_
  · exact decide_eq_true (.head first (of_decide_eq_true ahead))
  · exact decide_eq_false (acyclic.no_return first)
  · exact decide_eq_true .refl

/-- What holds of a type whenever it holds of all types one step away holds of a type with no cycle
ahead, provided the steps stay inside an environment. -/
theorem Acyclic.induction {env : Environment} {P : Handle → Prop} (acyclic : Acyclic step h)
    (own : env.owns h = true) (stays : ∀ x y, step x y → env.owns y = true)
    (passes : ∀ x, env.owns x = true → ReflTransGen step h x → (∀ y, step x y → P y) → P x) :
    P h := by
  have along (n : Nat) (x : Handle) (own_x : env.owns x = true) (path : ReflTransGen step h x)
      (rank : env.reach step x = n) : P x := by
    induction n using Nat.strongRecOn generalizing x with
    | _ n ih =>
      have acyclic_x : Acyclic step x := fun y ahead => acyclic y (path.trans ahead)
      refine passes x own_x path fun y last => ?_
      have fewer : env.reach step y < n := rank ▸ acyclic_x.reach_lt own_x last
      exact ih _ fewer y (stays x y last) (path.tail last) rfl
  exact along _ h own .refl rfl

end TypeHierarchy
