import TypeHierarchy.Trace
import TypeHierarchy.TypeSet

/-!
# Outcomes of loops

What a loop over a list answers when each of its steps answers.  Where the steps keep no state,
`outcome_allM`, `outcome_anyM` and `outcome_filterM` replace the loop by the plain list function,
and `exists_flatMapM` says what it collects; the lines that the steps leave behind play no part.
Where they do keep state, `run_allM_cons` and `run_anyM_cons` take the loop one step further.
-/

namespace TypeHierarchy

theorem allM_congr {m : Type → Type} [Monad m] {α : Type} {l : List α} {p q : α → m Bool}
    (same : ∀ x ∈ l, p x = q x) : l.allM p = l.allM q := by
  induction l with
  | nil => rfl
  | cons a l ih =>
    obtain ⟨same_a, same_l⟩ := List.forall_mem_cons.mp same
    rw [List.allM, List.allM, same_a, ih same_l]

theorem anyM_congr {m : Type → Type} [Monad m] {α : Type} {l : List α} {p q : α → m Bool}
    (same : ∀ x ∈ l, p x = q x) : l.anyM p = l.anyM q := by
  induction l with
  | nil => rfl
  | cons a l ih =>
    obtain ⟨same_a, same_l⟩ := List.forall_mem_cons.mp same
    rw [List.anyM, List.anyM, same_a, ih same_l]

theorem findM?_congr {m : Type → Type} [Monad m] {α : Type} {l : List α} {p q : α → m Bool}
    (same : ∀ x ∈ l, p x = q x) : l.findM? p = l.findM? q := by
  induction l with
  | nil => rfl
  | cons a l ih =>
    obtain ⟨same_a, same_l⟩ := List.forall_mem_cons.mp same
    rw [List.findM?, List.findM?, same_a, ih same_l]

theorem mapM_congr {m : Type → Type} [Monad m] [LawfulMonad m] {α β : Type} {l : List α}
    {f g : α → m β} (same : ∀ x ∈ l, f x = g x) : l.mapM f = l.mapM g := by
  induction l with
  | nil => simp
  | cons a l ih =>
    obtain ⟨same_a, same_l⟩ := List.forall_mem_cons.mp same
    rw [List.mapM_cons, List.mapM_cons, same_a, ih same_l]

section Except

variable {ε α β : Type}

@[simp] theorem ok_bind (a : α) (f : α → Except ε β) : (Except.ok a >>= f) = f a := rfl

theorem bind_eq_ok_iff {x : Except ε α} {f : α → Except ε β} {b : β} :
    (x >>= f) = .ok b ↔ ∃ a, x = .ok a ∧ f a = .ok b := by
  constructor
  · intro h
    cases x with
    | error e => cases h
    | ok a => exact ⟨a, rfl, h⟩
  · rintro ⟨a, rfl, h⟩
    exact h

theorem eq_ok_of_toOption {x : Except ε α} {a : α} (h : x.toOption = some a) : x = .ok a := by
  cases x with
  | error e => cases h
  | ok b => exact congrArg _ (Option.some.inj h)

variable {σ : Type} {p : α → StateT σ (Except ε) Bool} {a : α} {s s' : σ} {answer : Bool}

theorem run_allM_cons (h : (p a).run s = .ok (answer, s')) (l : List α) :
    ((a :: l).allM p).run s = if answer then (l.allM p).run s' else .ok (false, s') := by
  rw [List.allM, StateT.run_bind, h, ok_bind]
  cases answer <;> rfl

theorem run_anyM_cons (h : (p a).run s = .ok (answer, s')) (l : List α) :
    ((a :: l).anyM p).run s = if answer then .ok (true, s') else (l.anyM p).run s' := by
  rw [List.anyM, StateT.run_bind, h, ok_bind]
  cases answer <;> rfl

end Except

namespace Traced

variable {α β : Type} {l : List α}

theorem outcome_bind_of_ok {x : Traced α} {f : α → Traced β} {a : α} (h : x.outcome = .ok a) :
    (x >>= f).outcome = (f a).outcome := by
  rw [outcome_bind, h, ok_bind]

theorem outcome_lift_bind {x : Except Violation α} {f : α → Traced β} {a : α} (h : x = .ok a) :
    ((liftM x : Traced α) >>= f).outcome = (f a).outcome := outcome_bind_of_ok h

theorem lift_bind {x : Except Violation α} {f : α → Traced β} {a : α} (h : x = .ok a) :
    ((liftM x : Traced α) >>= f) = f a := by
  subst h
  rfl

theorem lift_orM {x y : Except Violation Bool} {p q : Bool} (hx : x = .ok p) (hy : y = .ok q) :
    ((liftM x : Traced Bool) <||> liftM y) = pure (p || q) := by
  rw [orM, lift_bind hx, hy]
  cases p <;> rfl

theorem outcome_orM {x y : Traced Bool} {p q : Bool} (hx : x.outcome = .ok p)
    (hy : y.outcome = .ok q) : (x <||> y).outcome = .ok (p || q) := by
  rw [orM, outcome_bind_of_ok hx]
  cases p with
  | false => exact hy
  | true => rfl

theorem outcome_andM {x y : Traced Bool} {p q : Bool} (hx : x.outcome = .ok p)
    (hy : y.outcome = .ok q) : (x <&&> y).outcome = .ok (p && q) := by
  rw [andM, outcome_bind_of_ok hx]
  cases p with
  | false => rfl
  | true => exact hy

theorem outcome_allM {p : α → Traced Bool} {q : α → Bool}
    (h : ∀ x ∈ l, (p x).outcome = .ok (q x)) : (l.allM p).outcome = .ok (l.all q) := by
  induction l with
  | nil => rfl
  | cons a l ih =>
    obtain ⟨ha, hl⟩ := List.forall_mem_cons.mp h
    rw [List.allM, outcome_bind_of_ok ha, List.all_cons]
    cases q a with
    | false => rfl
    | true => exact ih hl

theorem outcome_anyM {p : α → Traced Bool} {q : α → Bool}
    (h : ∀ x ∈ l, (p x).outcome = .ok (q x)) : (l.anyM p).outcome = .ok (l.any q) := by
  induction l with
  | nil => rfl
  | cons a l ih =>
    obtain ⟨ha, hl⟩ := List.forall_mem_cons.mp h
    rw [List.anyM, outcome_bind_of_ok ha, List.any_cons]
    cases q a with
    | false => exact ih hl
    | true => rfl

theorem outcome_filterM {p : α → Traced Bool} {q : α → Bool}
    (h : ∀ x ∈ l, (p x).outcome = .ok (q x)) : (l.filterM p).outcome = .ok (l.filter q) := by
  -- The loop collects in reverse, on top of what it has collected before.
  have loop (acc : List α) :
      (l.filterAuxM p acc).outcome = .ok ((l.filter q).reverse ++ acc) := by
    induction l generalizing acc with
    | nil => rfl
    | cons a l ih =>
      obtain ⟨ha, hl⟩ := List.forall_mem_cons.mp h
      rw [List.filterAuxM, outcome_bind_of_ok ha, ih hl]
      cases hq : q a <;> simp [hq]
  rw [List.filterM, outcome_bind_of_ok (loop []), outcome_pure, List.append_nil,
    List.reverse_reverse]

theorem exists_flatMapM {f : α → Traced (List β)} {p : α → β → Prop}
    (h : ∀ x ∈ l, ∃ ys, (f x).outcome = .ok ys ∧ ∀ y, y ∈ ys ↔ p x y) :
    ∃ ys, (l.flatMapM f).outcome = .ok ys ∧ ∀ y, y ∈ ys ↔ ∃ x ∈ l, p x y := by
  have loop (acc : List (List β)) : ∃ ys, (List.flatMapM.loop f l acc).outcome = .ok ys ∧
      ∀ y, y ∈ ys ↔ y ∈ acc.flatten ∨ ∃ x ∈ l, p x y := by
    induction l generalizing acc with
    | nil => exact ⟨acc.reverse.flatten, rfl, by simp⟩
    | cons a l ih =>
      obtain ⟨⟨ys, ha, mem⟩, hl⟩ := List.forall_mem_cons.mp h
      obtain ⟨zs, run, mem'⟩ := ih hl (ys :: acc)
      refine ⟨zs, ?_, fun y => ?_⟩
      · rw [List.flatMapM.loop, outcome_bind_of_ok ha, run]
      · simp only [mem', List.flatten_cons, List.mem_append, mem, List.mem_cons, or_and_right,
          exists_or, exists_eq_left]
        rw [or_comm (a := p a y), or_assoc]
  simpa [List.flatMapM] using loop []

/-! ## Sets of types -/

/-- The outcome is the set of all types with the property. -/
def Yields (x : Traced HandleSet) (p : Handle → Prop) : Prop :=
  ∃ set, x.outcome = .ok set ∧ ∀ h, h ∈ set ↔ p h

variable {x y : Traced HandleSet} {p : Handle → Prop}

theorem Yields.of_outcome (yields : y.Yields p) (same : x.outcome = y.outcome) : x.Yields p := by
  obtain ⟨set, done, mem⟩ := yields
  exact ⟨set, same.trans done, mem⟩

theorem yields_singleton {h : Handle} (done : x.outcome = .ok (.singleton h)) : x.Yields (· = h) :=
  ⟨_, done, fun _ => SortedSet.mem_singleton⟩

theorem yields_empty (done : x.outcome = .ok ∅) (none : ∀ h, ¬ p h) : x.Yields p :=
  ⟨∅, done, fun h => iff_of_false (SortedSet.not_mem_empty h) (none h)⟩

end Traced

end TypeHierarchy
