import TypeHierarchy.Update

/-!
# Rules for updates

What a sequence of updates gives is told from what each of them gives (`gives_bind_iff`).

An update that changes something and fails afterwards leaves the change behind.  This cannot happen to
one that makes its checks first and then does only what cannot fail: an update that keeps the state may
stand in front of an atomic one (`Keeps.bind_atomic`), and an update that succeeds may stand behind it
(`Atomic.bind_succeeds`).
-/

namespace TypeHierarchy.Update

open Trace

variable {ε ε' σ α β : Type} {x : Update ε σ α} {f : α → Update ε σ β} {a : α} {b : β} {s s' : σ}
  {error : ε}

theorem bind_of_ok (done : (x s).outcome = .ok a) :
    (x >>= f) s = ⟨(f a (x s).state).outcome, (x s).lines ++ (f a (x s).state).lines,
      (f a (x s).state).state⟩ := by
  simp only [bind, done]

theorem bind_of_error (failed : (x s).outcome = .error error) :
    (x >>= f) s = ⟨.error error, (x s).lines, (x s).state⟩ := by
  simp only [bind, failed]

@[simp] theorem get_bind (f : σ → Update ε σ β) (s : σ) : (get >>= f) s = f s s := rfl

/-! ## What an update gives -/

theorem gives_bind_iff :
    ((x >>= f) s).Gives b s' ↔ ∃ a t, (x s).Gives a t ∧ (f a t).Gives b s' := by
  constructor
  · rintro ⟨outcome, state⟩
    cases first : (x s).outcome with
    | error e =>
      rw [bind_of_error first] at outcome
      cases outcome
    | ok a =>
      rw [bind_of_ok first] at outcome state
      exact ⟨a, _, ⟨first, rfl⟩, outcome, state⟩
  · rintro ⟨a, t, ⟨first, rfl⟩, outcome, state⟩
    rw [bind_of_ok first]
    exact ⟨outcome, state⟩

theorem gives_iff {changed : Changed ε σ α} :
    changed.Gives a s ↔ changed.outcome = .ok a ∧ changed.state = s :=
  ⟨fun gives => ⟨gives.outcome, gives.state⟩, fun both => ⟨both.1, both.2⟩⟩

@[simp] theorem gives_pure_iff {a' : α} :
    ((pure a : Update ε σ α) s).Gives a' s' ↔ a' = a ∧ s' = s := by
  simp [gives_iff, pure, eq_comm]

@[simp] theorem gives_set_iff {t : σ} {u : Unit} :
    ((set t : Update ε σ Unit) s).Gives u s' ↔ s' = t := by
  simp [gives_iff, set, eq_comm]

@[simp] theorem gives_emit_iff {event : Event} {u : Unit} :
    ((emit event : Update ε σ Unit) s).Gives u s' ↔ s' = s := by
  simp [gives_iff, emit, eq_comm]

@[simp] theorem gives_lift_iff {y : Except ε α} :
    ((liftM y : Update ε σ α) s).Gives a s' ↔ y = .ok a ∧ s' = s := by
  simp [gives_iff, liftM, monadLift, MonadLift.monadLift, eq_comm]

@[simp] theorem gives_lift_bind_iff {y : Except ε α} :
    (((liftM y : Update ε σ α) >>= f) s).Gives b s' ↔ ∃ a, y = .ok a ∧ (f a s).Gives b s' := by
  rw [gives_bind_iff]
  simp [and_assoc]

@[simp] theorem gives_fail_iff : ((fail error : Update ε σ α) s).Gives a s' ↔ False := by
  simp [gives_iff, fail]

/-! ## Updates in other terms -/

section Map

variable {σ' α' β' : Type} {x' : Update ε' σ' α'} {f' : α' → Update ε' σ' β'} {answer : α → α'}
  {answer' : β → β'} {onError : ε → ε'} {onState : σ → σ'} {s₀ : σ'}

theorem bind_eq_map (first : x' s₀ = (x s).map answer onError onState)
    (next : ∀ a, (x s).outcome = .ok a →
      f' (answer a) (onState (x s).state) = (f a (x s).state).map answer' onError onState) :
    (x' >>= f') s₀ = ((x >>= f) s).map answer' onError onState := by
  cases outcome : (x s).outcome with
  | error e =>
    have failed : (x' s₀).outcome = .error (onError e) := by rw [first, Changed.map, outcome]; rfl
    rw [bind_of_error outcome, bind_of_error failed, first]
    rfl
  | ok a =>
    have done : (x' s₀).outcome = .ok (answer a) := by rw [first, Changed.map, outcome]; rfl
    rw [bind_of_ok outcome, bind_of_ok done, first]
    simp only [Changed.map, next a outcome]

theorem emit_eq_map (event : Event) (onError : ε → ε') (onState : σ → σ') (s : σ) :
    emit event (onState s) = (emit event s).map (fun u => u) onError onState := rfl

end Map

/-! ## Checks first -/

/-- Whatever the outcome, the state stays as it was. -/
def Keeps (x : Update ε σ α) : Prop := ∀ s, (x s).state = s

/-- The update never fails. -/
def Succeeds (x : Update ε σ α) : Prop := ∀ s, ∃ a, (x s).outcome = .ok a

/-- Where the update fails, the state stays as it was. -/
def Atomic (x : Update ε σ α) : Prop := ∀ s error, (x s).outcome = .error error → (x s).state = s

theorem keeps_pure (a : α) : Keeps (pure a : Update ε σ α) := fun _ => rfl

theorem keeps_get : Keeps (get : Update ε σ σ) := fun _ => rfl

theorem keeps_lift (y : Except ε α) : Keeps (liftM y : Update ε σ α) := fun _ => rfl

theorem keeps_fail (error : ε) : Keeps (fail error : Update ε σ α) := fun _ => rfl

theorem keeps_emit (event : Event) : Keeps (emit event : Update ε σ Unit) := fun _ => rfl

theorem Keeps.bind (keeps : Keeps x) (next : ∀ a, Keeps (f a)) : Keeps (x >>= f) := by
  intro s
  cases first : (x s).outcome with
  | error e => rw [bind_of_error first, keeps s]
  | ok a => rw [bind_of_ok first, next a, keeps s]

theorem state_bind_of_keeps (next : ∀ a, Keeps (f a)) (s : σ) : ((x >>= f) s).state = (x s).state := by
  cases first : (x s).outcome with
  | error e => rw [bind_of_error first]
  | ok a => rw [bind_of_ok first, next a]

theorem Keeps.atomic (keeps : Keeps x) : Atomic x := fun s _ _ => keeps s

theorem succeeds_pure (a : α) : Succeeds (pure a : Update ε σ α) := fun _ => ⟨a, rfl⟩

theorem succeeds_set (s : σ) : Succeeds (set s : Update ε σ Unit) := fun _ => ⟨(), rfl⟩

theorem succeeds_emit (event : Event) : Succeeds (emit event : Update ε σ Unit) := fun _ => ⟨(), rfl⟩

theorem succeeds_attempt (x : Update ε σ α) : Succeeds (x.attempt : Update ε' σ (Except ε α)) :=
  fun s => ⟨(x s).outcome, rfl⟩

theorem Succeeds.bind (succeeds : Succeeds x) (next : ∀ a, Succeeds (f a)) : Succeeds (x >>= f) := by
  intro s
  obtain ⟨a, first⟩ := succeeds s
  rw [bind_of_ok first]
  exact next a _

theorem Succeeds.atomic (succeeds : Succeeds x) : Atomic x := by
  intro s error failed
  obtain ⟨a, done⟩ := succeeds s
  cases done.symm.trans failed

/-- A check may come first. -/
theorem Keeps.bind_atomic (keeps : Keeps x) (next : ∀ a, Atomic (f a)) : Atomic (x >>= f) := by
  intro s error failed
  cases first : (x s).outcome with
  | error e => rw [bind_of_error first, keeps s]
  | ok a =>
    rw [bind_of_ok first, keeps s] at failed ⊢
    exact next a s error failed

/-- What cannot fail may come last. -/
theorem Atomic.bind_succeeds (atomic : Atomic x) (next : ∀ a, Succeeds (f a)) :
    Atomic (x >>= f) := by
  intro s error failed
  cases first : (x s).outcome with
  | error e =>
    rw [bind_of_error first]
    exact atomic s e first
  | ok a =>
    obtain ⟨b, done⟩ := next a (x s).state
    rw [bind_of_ok first, done] at failed
    cases failed

-- A check that comes after the change is too late.
example : ((do set 1; fail () : Update Unit Nat Unit) 0).state = 1 := rfl

theorem Atomic.mapError {g : ε → ε'} (atomic : Atomic x) : Atomic (x.mapError g) := by
  intro s error failed
  rw [Update.mapError, Changed.map] at failed ⊢
  cases outcome : (x s).outcome with
  | error e => exact atomic s e outcome
  | ok a =>
    rw [outcome] at failed
    cases failed

end TypeHierarchy.Update
