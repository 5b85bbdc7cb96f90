import TypeHierarchy.Trace

/-!
# Updates

An update works on a state.  Besides an outcome and lines it always leaves a state behind, also when it
fails: what was done up to then stays done.  Nothing here takes a change back, so whether a failed
update has changed anything is up to the order of its steps.
-/

namespace TypeHierarchy

open Trace

/-- The end of an update: its outcome, the lines it left behind and the state it came to. -/
structure Changed (ε σ α : Type) where
  outcome : Except ε α
  lines : List Line
  state : σ

namespace Changed

variable {ε ε' σ σ' α β : Type}

/-- The same end in other terms. -/
def map (onAnswer : α → β) (onError : ε → ε') (onState : σ → σ') (changed : Changed ε σ α) :
    Changed ε' σ' β :=
  ⟨(changed.outcome.map onAnswer).mapError onError, changed.lines, onState changed.state⟩

/-- The update succeeded with an answer and left this state behind. -/
structure Gives (changed : Changed ε σ α) (answer : α) (state : σ) : Prop where
  outcome : changed.outcome = .ok answer
  state : changed.state = state

end Changed

/-- A traced computation that may fail and may change a state. -/
def Update (ε σ α : Type) := σ → Changed ε σ α

namespace Update

variable {ε ε' σ α β : Type}

/-- The next update starts from the state that the one before left behind.  One that fails is the
last. -/
instance : Monad (Update ε σ) where
  pure a := fun s => ⟨.ok a, [], s⟩
  bind x f := fun s =>
    let first := x s
    match first.outcome with
    | .ok a =>
      let next := f a first.state
      ⟨next.outcome, first.lines ++ next.lines, next.state⟩
    | .error error => ⟨.error error, first.lines, first.state⟩

instance : MonadStateOf σ (Update ε σ) where
  get := fun s => ⟨.ok s, [], s⟩
  set s := fun _ => ⟨.ok (), [], s⟩
  modifyGet f := fun s => ⟨.ok (f s).1, [], (f s).2⟩

/-- Computations without a state leave the state alone. -/
instance : MonadLift (Except ε) (Update ε σ) := ⟨fun outcome s => ⟨outcome, [], s⟩⟩

instance : MonadLift Traced (Update Violation σ) := ⟨fun x s => ⟨x.outcome, x.lines, s⟩⟩

/-- Fails at once. -/
def fail (error : ε) : Update ε σ α := fun s => ⟨.error error, [], s⟩

/-- Leaves one event behind. -/
def emit (event : Event) : Update ε σ Unit := fun s => ⟨.ok (), [.event event], s⟩

/-- The same update with its errors in other terms. -/
def mapError (f : ε → ε') (x : Update ε σ α) : Update ε' σ α := fun s =>
  (x s).map (fun a => a) f (fun s => s)

/-- Answers with the outcome of an update instead of failing where the update fails. -/
def attempt (x : Update ε σ α) : Update ε' σ (Except ε α) := fun s =>
  ⟨.ok (x s).outcome, (x s).lines, (x s).state⟩

end Update

end TypeHierarchy
