import Mathlib.Logic.Relation
import Mathlib.Order.Bounds.Defs
import TypeHierarchy.Proofs.Traversal
import TypeHierarchy.Reduction

/-!
# Reduction as a least relation

`Reduces h root` is built from the bottom up: it holds of a constant type or a subset and itself, and
passes from the base to a subset and from all members to a union that has some.  The traversal
decides it, and every answer that it remembers is right (`exists_traverse_reduction`).  A provisional
`false` can be wrong only for a type that reduces, and while it stands all that is visited is awaited
by that type.  A type that reduces never waits for itself (`Reduces.not_cyclic`), so nobody reads the
wrong answer before it is replaced.
-/

namespace TypeHierarchy.Environment

open scoped Classical
open Relation

/-- The type reduces to the root. -/
inductive Reduces (env : Environment) : Handle → Handle → Prop
  | constant {root : Handle} {kind : Kind} (shape : env.shape root = .ok (.constant kind)) :
      Reduces env root root
  | itself {root base : Handle} {primitive : Bool}
      (shape : env.shape root = .ok (.subset base primitive)) : Reduces env root root
  | subset {h base root : Handle} {primitive : Bool}
      (shape : env.shape h = .ok (.subset base primitive)) (reduces : Reduces env base root) :
      Reduces env h root
  | union {h root : Handle} {members : List Handle} (shape : env.shape h = .ok (.union members))
      (nonempty : members ≠ []) (reduce : ∀ member ∈ members, Reduces env member root) :
      Reduces env h root

/-- The relation is closed under the rules of reduction. -/
structure ObeysReduction (env : Environment) (R : Handle → Handle → Prop) : Prop where
  constant : ∀ {root : Handle} {kind : Kind}, env.shape root = .ok (.constant kind) → R root root
  itself : ∀ {root base : Handle} {primitive : Bool},
    env.shape root = .ok (.subset base primitive) → R root root
  subset : ∀ {h base root : Handle} {primitive : Bool},
    env.shape h = .ok (.subset base primitive) → R base root → R h root
  union : ∀ {h root : Handle} {members : List Handle}, env.shape h = .ok (.union members) →
    members ≠ [] → (∀ member ∈ members, R member root) → R h root

theorem isLeast_reduces (env : Environment) : IsLeast {R | env.ObeysReduction R} env.Reduces := by
  refine ⟨⟨.constant, .itself, .subset, .union⟩, fun R rules h root reduces => ?_⟩
  induction reduces with
  | constant shape => exact rules.constant shape
  | itself shape => exact rules.itself shape
  | subset shape _ ih => exact rules.subset shape ih
  | union shape nonempty _ ih => exact rules.union shape nonempty ih

variable {env : Environment} {h root next : Handle} {s : Shape}

/-! ## One step of reduction -/

/-- What it takes a type of the given shape to reduce. -/
def ReducesBy (env : Environment) (h root : Handle) : Shape → Prop
  | .constant _ => h = root
  | .subset base _ => h = root ∨ env.Reduces base root
  | .union members => members ≠ [] ∧ ∀ member ∈ members, env.Reduces member root
  | .record _ => False

theorem reduces_iff (hs : env.shape h = .ok s) : env.Reduces h root ↔ env.ReducesBy h root s := by
  constructor
  · intro reduces
    cases reduces with
    | constant shape =>
      cases hs.symm.trans shape
      rfl
    | itself shape =>
      cases hs.symm.trans shape
      exact .inl rfl
    | subset shape reduces =>
      cases hs.symm.trans shape
      exact .inr reduces
    | union shape nonempty reduce =>
      cases hs.symm.trans shape
      exact ⟨nonempty, reduce⟩
  · intro reduces
    cases s with
    | constant kind =>
      obtain rfl : h = root := reduces
      exact .constant hs
    | subset base primitive =>
      rcases reduces with rfl | reduces
      · exact .itself hs
      · exact .subset hs reduces
    | union members => exact .union hs reduces.1 reduces.2
    | record fields => exact reduces.elim

/-- The types whose answers a type of the given shape waits for. -/
def awaited (root h : Handle) : Shape → List Handle
  | .subset base _ => if h = root then [] else [base]
  | .union members => members
  | _ => []

/-- To reduce to the root, the first type waits for the second. -/
def Awaits (env : Environment) (root h next : Handle) : Prop :=
  ∃ s, env.shape h = .ok s ∧ next ∈ awaited root h s

theorem awaits_iff (hs : env.shape h = .ok s) :
    env.Awaits root h next ↔ next ∈ awaited root h s := exists_shape_iff hs

/-- A type that reduces does not wait for itself. -/
theorem Reduces.not_cyclic (reduces : env.Reduces h root) : ¬ TransGen (env.Awaits root) h h := by
  induction reduces with
  | constant shape =>
    intro cycle
    obtain ⟨next, step, -⟩ := TransGen.head'_iff.mp cycle
    simp [awaits_iff shape, awaited] at step
  | itself shape =>
    intro cycle
    obtain ⟨next, step, -⟩ := TransGen.head'_iff.mp cycle
    simp [awaits_iff shape, awaited] at step
  | @subset h base root _ shape _ ih =>
    intro cycle
    obtain ⟨next, step, back⟩ := TransGen.head'_iff.mp cycle
    have next_base : next = base := by
      rw [awaits_iff shape, awaited] at step
      split at step
      · cases step
      · exact List.mem_singleton.mp step
    subst next_base
    exact ih (.tail' back step)
  | union shape _ _ ih =>
    intro cycle
    obtain ⟨next, step, back⟩ := TransGen.head'_iff.mp cycle
    exact ih next ((awaits_iff shape).mp step) (.tail' back step)

/-- Only a constant type or a subset is a root. -/
theorem Reduces.root_shape (reduces : env.Reduces h root) :
    (∃ kind, env.shape root = .ok (.constant kind)) ∨
      ∃ base primitive, env.shape root = .ok (.subset base primitive) := by
  induction reduces with
  | constant shape => exact .inl ⟨_, shape⟩
  | itself shape => exact .inr ⟨_, _, shape⟩
  | subset _ _ ih => exact ih
  | union _ nonempty _ ih =>
    obtain ⟨member, mem⟩ := List.exists_mem_of_ne_nil _ nonempty
    exact ih member mem

/-! ## What a visit leaves behind -/

/-- An answer remembered before the visit of `h` is right, or it is remembered for a type that does
reduce and still waits for `h`. -/
def Reliable (env : Environment) (root h : Handle) (memo : Memo Bool) : Prop :=
  ∀ (x : Handle) (answer : Bool), memo[x]? = some answer →
    (answer = true ↔ env.Reduces x root) ∨ env.Reduces x root ∧ TransGen (env.Awaits root) x h

/-- A computation that started from `memo` answered whether `goal` holds, and what it has remembered
since is right. -/
structure Settled (env : Environment) (root : Handle) (goal : Prop) (memo : Memo Bool)
    (answer : Bool) (after : Memo Bool) : Prop where
  grows : ∀ x ∈ memo, x ∈ after
  right : answer = true ↔ goal
  kept : ∀ (x : Handle) (found : Bool), after[x]? = some found →
    memo[x]? = some found ∨ (found = true ↔ env.Reduces x root)

variable {goal : Prop} {hs : List Handle} {memo after : Memo Bool} {answer : Bool}

/-- While a type is being visited, the types it waits for may rely on what is remembered. -/
theorem Reliable.enter (reliable : env.Reliable root h memo) (step : env.Awaits root h next) :
    env.Reliable root next (memo.insert h false) := by
  intro x answer found
  by_cases e : x = h
  · subst e
    rw [Std.TreeMap.getElem?_insert_self] at found
    cases found
    by_cases reduces : env.Reduces x root
    · exact .inr ⟨reduces, .single step⟩
    · exact .inl (iff_of_false Bool.false_ne_true reduces)
  · rw [getElem?_insert_of_ne e] at found
    exact (reliable x answer found).imp_right fun ⟨reduces, path⟩ => ⟨reduces, path.tail step⟩

theorem Reliable.later (reliable : env.Reliable root next memo)
    (settled : env.Settled root goal memo answer after) : env.Reliable root next after := by
  intro x found hx
  rcases settled.kept x found hx with earlier | right
  · exact reliable x found earlier
  · exact .inl right

theorem Settled.remembered (reliable : env.Reliable root h memo) (found : memo[h]? = some answer) :
    env.Settled root (env.Reduces h root) memo answer memo where
  grows _ hx := hx
  right := by
    rcases reliable h answer found with right | ⟨reduces, cycle⟩
    · exact right
    · exact absurd cycle reduces.not_cyclic
  kept _ _ hx := .inl hx

theorem Settled.known (right : answer = true ↔ goal) (memo : Memo Bool) :
    env.Settled root goal memo answer memo where
  grows _ hx := hx
  right := right
  kept _ _ hx := .inl hx

/-- The visitor's answer settles the visited type. -/
theorem Settled.visited (inner : env.Settled root goal (memo.insert h false) answer after)
    (same : env.Reduces h root ↔ goal) :
    env.Settled root (env.Reduces h root) memo answer (after.insert h answer) where
  grows x hx := mem_insert_iff.mpr (.inr (inner.grows x (mem_insert_iff.mpr (.inr hx))))
  right := inner.right.trans same.symm
  kept x found hx := by
    by_cases e : x = h
    · subst e
      rw [Std.TreeMap.getElem?_insert_self] at hx
      cases hx
      exact .inr (inner.right.trans same.symm)
    · rw [getElem?_insert_of_ne e] at hx
      have earlier := inner.kept x found hx
      rwa [getElem?_insert_of_ne e] at earlier

/-! ## The traversal -/

/-- The visit settles the type if it may rely on what is remembered, and a violation does not
happen. -/
def Settles (env : Environment) (root h : Handle) (memo : Memo Bool)
    (x : Except Violation (Bool × Memo Bool)) : Prop :=
  env.Reliable root h memo → ∃ answer after, x = .ok (answer, after) ∧
    env.Settled root (env.Reduces h root) memo answer after

theorem exists_settled_allM {visit : Visit (Except Violation) Bool} {start : Memo Bool}
    (visits : ∀ h ∈ hs, ∀ memo, (∀ x ∈ start, x ∈ memo) →
      env.Settles root h memo ((visit h).run memo))
    (from_start : ∀ x ∈ start, x ∈ memo) (reliable : ∀ h ∈ hs, env.Reliable root h memo) :
    ∃ answer after, (hs.allM visit).run memo = .ok (answer, after) ∧
      env.Settled root (∀ h ∈ hs, env.Reduces h root) memo answer after := by
  induction hs generalizing memo with
  | nil => exact ⟨true, memo, rfl, .known (by simp) memo⟩
  | cons h hs ih =>
    obtain ⟨visits_h, visits_hs⟩ := List.forall_mem_cons.mp visits
    obtain ⟨reliable_h, reliable_hs⟩ := List.forall_mem_cons.mp reliable
    obtain ⟨first, middle, run_h, settled⟩ := visits_h memo from_start reliable_h
    rw [run_allM_cons run_h]
    cases first with
    | false =>
      have stuck : ¬ env.Reduces h root := fun reduces =>
        Bool.false_ne_true (settled.right.mpr reduces)
      refine ⟨false, middle, rfl, settled.grows, ?_, settled.kept⟩
      exact iff_of_false Bool.false_ne_true fun all => stuck (all h List.mem_cons_self)
    | true =>
      obtain ⟨answer, after, run_hs, settled'⟩ :=
        ih visits_hs (fun x hx => settled.grows x (from_start x hx))
          fun h' mem => (reliable_hs h' mem).later settled
      refine ⟨answer, after, run_hs, fun x hx => settled'.grows x (settled.grows x hx), ?_, ?_⟩
      · rw [settled'.right, List.forall_mem_cons, and_iff_right (settled.right.mp rfl)]
      · intro x found hx
        rcases settled'.kept x found hx with earlier | right
        · exact settled.kept x found earlier
        · exact .inr right

theorem exists_settled_visitor (closed : env.Closed) (hs : env.shape h = .ok s)
    {visit : Visit (Except Violation) Bool}
    (visits : ∀ next after, env.owns next = true → (∀ x ∈ memo, x ∈ after) →
      env.Settles root next after ((visit next).run after))
    (reliable : ∀ next, env.Awaits root h next → env.Reliable root next memo) :
    ∃ answer after, (reductionVisitor root visit h s).run memo = .ok (answer, after) ∧
      env.Settled root (env.ReducesBy h root s) memo answer after := by
  cases s with
  | constant kind =>
    have right : decide (h = root) = true ↔ env.ReducesBy h root (.constant kind) := by
      simp [ReducesBy]
    exact ⟨_, memo, rfl, .known right memo⟩
  | record fields =>
    exact ⟨_, memo, rfl, .known (iff_of_false Bool.false_ne_true fun reduces => reduces) memo⟩
  | subset base primitive =>
    rw [reductionVisitor]
    by_cases e : h = root
    · rw [if_pos e]
      exact ⟨_, memo, rfl, .known (iff_of_true rfl (.inl e)) memo⟩
    · rw [if_neg e]
      have own := closed.owns_of_mem hs (List.mem_singleton_self base)
      have awaits : env.Awaits root h base := by
        rw [awaits_iff hs, awaited, if_neg e]
        exact List.mem_singleton_self base
      obtain ⟨answer, after, run, settled⟩ :=
        visits base memo own (fun _ hx => hx) (reliable base awaits)
      exact ⟨answer, after, run, settled.grows, settled.right.trans (or_iff_right e).symm,
        settled.kept⟩
  | union members =>
    rw [reductionVisitor]
    by_cases e : members = []
    · subst e
      exact ⟨_, memo, rfl, .known (iff_of_false Bool.false_ne_true fun reduces => reduces.1 rfl) memo⟩
    · rw [if_neg (by simpa using e)]
      have own : ∀ m ∈ members, env.owns m = true := fun m hm => closed.owns_of_mem hs hm
      obtain ⟨answer, after, run, settled⟩ := exists_settled_allM
        (fun m hm after grows => visits m after (own m hm) grows) (fun _ hx => hx)
        fun m hm => reliable m ((awaits_iff hs).mpr hm)
      exact ⟨answer, after, run, settled.grows, settled.right.trans (and_iff_right e).symm,
        settled.kept⟩

theorem settles_visitOnce (closed : env.Closed) {budget : Nat} (own : env.owns h = true)
    (enough : env.unseen memo ≤ budget) :
    env.Settles root h memo ((env.visitOnce false (reductionVisitor root) budget h).run memo) := by
  refine visitOnce_rule ?_ ?_ own enough
  · intro h memo answer found reliable
    exact ⟨answer, memo, rfl, .remembered reliable found⟩
  · intro h memo s visit hs _ visits reliable
    obtain ⟨answer, after, run, settled⟩ :=
      exists_settled_visitor closed hs visits fun _ awaits => reliable.enter awaits
    exact ⟨answer, after.insert h answer, by rw [run]; rfl, settled.visited (reduces_iff hs)⟩

/-- The traversal decides reduction, of the type asked about and of all types on its way. -/
theorem exists_traverse_reduction (closed : env.Closed) (own : env.owns h = true) (root : Handle) :
    ∃ memo, env.traverse false (reductionVisitor root) h =
        .ok (decide (env.Reduces h root), memo) ∧
      ∀ (x : Handle) (answer : Bool), memo[x]? = some answer →
        answer = decide (env.Reduces x root) := by
  have visit : env.Settles root h ∅ (env.traverse false (reductionVisitor root) h) :=
    settles_visitOnce closed own (Nat.le_of_eq unseen_empty)
  have nothing : env.Reliable root h ∅ := fun x answer found => by simp at found
  obtain ⟨answer, memo, run, settled⟩ := visit nothing
  refine ⟨memo, ?_, fun x found hx => ?_⟩
  · rw [run]
    simp only [← settled.right, Bool.decide_eq_true]
  · rcases settled.kept x found hx with earlier | right
    · simp at earlier
    · simp only [← right, Bool.decide_eq_true]

theorem reducesTo_eq (closed : env.Closed) (own : env.owns h = true) (root : Handle) :
    env.reducesTo h root = .ok (decide (env.Reduces h root)) := by
  obtain ⟨memo, run, -⟩ := exists_traverse_reduction closed own root
  rw [reducesTo, run, ok_bind]
  rfl

theorem reducesTo_iff (closed : env.Closed) (own : env.owns h = true) :
    env.reducesTo h root = .ok true ↔ env.Reduces h root := by
  rw [reducesTo_eq closed own, Except.ok.injEq, decide_eq_true_iff]

/-! ## The least relation -/

/-- Reduction is the least relation that obeys its rules, so that no record reduces and no union or
record is a root.  Asked about a type of the environment the traversal answers whether it reduces, and
so does every answer it has remembered in the end, though some were found while a type that waits for
them had no answer yet. -/
theorem reducesTo_eq_least (reachable : env.Reachable) :
    IsLeast {R | env.ObeysReduction R} env.Reduces ∧
    (∀ h root, env.Reduces h root → (∀ fields, env.shape h ≠ .ok (.record fields)) ∧
      (∀ fields, env.shape root ≠ .ok (.record fields)) ∧
      ∀ members, env.shape root ≠ .ok (.union members)) ∧
    ∀ h root, env.owns h = true →
      env.reducesTo h root = .ok (decide (env.Reduces h root)) ∧
      ∃ memo, env.traverse false (reductionVisitor root) h =
          .ok (decide (env.Reduces h root), memo) ∧
        ∀ (x : Handle) (answer : Bool), memo[x]? = some answer →
          answer = decide (env.Reduces x root) := by
  have closed := reachable.closed
  refine ⟨env.isLeast_reduces, fun h root reduces => ?_, fun h root own => ?_⟩
  · refine ⟨fun fields record => (reduces_iff record).mp reduces, fun fields record => ?_,
      fun members union => ?_⟩
    · rcases reduces.root_shape with ⟨kind, shape⟩ | ⟨base, primitive, shape⟩
      · cases shape.symm.trans record
      · cases shape.symm.trans record
    · rcases reduces.root_shape with ⟨kind, shape⟩ | ⟨base, primitive, shape⟩
      · cases shape.symm.trans union
      · cases shape.symm.trans union
  · exact ⟨reducesTo_eq closed own root, exists_traverse_reduction closed own root⟩

/-- A union of a subset of itself and the signed primitive, and a union of the primitive and the first
union. -/
def selfBased : Environment :=
  { initial ⟨0⟩ with entries := (initial ⟨0⟩).entries ++
      #[⟨"Loop", .union [⟨⟨0⟩, 9⟩, ⟨⟨0⟩, 4⟩]⟩, ⟨"Part", .subset ⟨⟨0⟩, 8⟩ false⟩,
        ⟨"Both", .union [⟨⟨0⟩, 4⟩, ⟨⟨0⟩, 8⟩]⟩] }

theorem reachable_selfBased : selfBased.Reachable := by
  have made : Environment.after [.declare 0 "Loop" .union, .declare 0 "Part" (.subset ⟨⟨0⟩, 8⟩),
      .declare 0 "Both" .union, .addMember 0 ⟨⟨0⟩, 8⟩ ⟨⟨0⟩, 9⟩, .addMember 0 ⟨⟨0⟩, 8⟩ ⟨⟨0⟩, 4⟩,
      .addMember 0 ⟨⟨0⟩, 10⟩ ⟨⟨0⟩, 4⟩, .addMember 0 ⟨⟨0⟩, 10⟩ ⟨⟨0⟩, 8⟩] = selfBased := by
    decide +kernel
  exact made ▸ reachable_after _

/-- The second union does not reduce to the signed constants.  On the way the primitive is found to
reduce, and the subset, whose base is then still being visited, not to. -/
theorem reducesTo_selfBased :
    selfBased.reducesTo ⟨⟨0⟩, 10⟩ ⟨⟨0⟩, 0⟩ = .ok false ∧ selfBased.Reduces ⟨⟨0⟩, 4⟩ ⟨⟨0⟩, 0⟩ ∧
      ¬ selfBased.Reduces ⟨⟨0⟩, 9⟩ ⟨⟨0⟩, 0⟩ := by
  have stuck : selfBased.reducesTo ⟨⟨0⟩, 10⟩ ⟨⟨0⟩, 0⟩ = .ok false :=
    eq_ok_of_toOption (by decide +kernel)
  obtain ⟨-, -, decides⟩ := reducesTo_eq_least reachable_selfBased
  obtain ⟨-, memo, run, right⟩ := decides ⟨⟨0⟩, 10⟩ ⟨⟨0⟩, 0⟩ (by decide)
  have remembered (x : Handle) : memo[x]? =
      (selfBased.traverse false (reductionVisitor ⟨⟨0⟩, 0⟩) ⟨⟨0⟩, 10⟩).toOption.bind (·.2[x]?) := by
    rw [run]
    rfl
  have yes := right ⟨⟨0⟩, 4⟩ true ((remembered _).trans (by decide +kernel))
  have no := right ⟨⟨0⟩, 9⟩ false ((remembered _).trans (by decide +kernel))
  exact ⟨stuck, of_decide_eq_true yes.symm, of_decide_eq_false no.symm⟩

end TypeHierarchy.Environment
