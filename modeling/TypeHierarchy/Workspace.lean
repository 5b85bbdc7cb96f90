import TypeHierarchy.Environment.Declare

/-!
# Workspaces

Several environments side by side.  An environment's identity is its slot in the workspace, so no two
of them share one, and a handle belongs to at most one of them.
-/

namespace TypeHierarchy

/-- The environments, each at the place of its slot. -/
structure Workspace where
  environments : Array Environment := #[]
deriving DecidableEq, Repr

namespace Workspace

/-- A change of a workspace, addressed to the environment in a slot. -/
inductive Action where
  | create
  | clone (slot : Nat)
  | declare (slot : Nat) (name : String) (declaration : Declaration)
  | tryDeclare (slot : Nat) (name : String) (declaration : Declaration)
  | addMember (slot : Nat) (union member : Handle)
  | addField (slot : Nat) (record : Handle) (name : String) (type : Handle)
deriving DecidableEq, Repr

/-- What an action answers. -/
inductive Reply where
  /-- The slot of a new environment. -/
  | opened (slot : Nat)
  | declared (handle : Handle)
  | refused (error : RegistryError)
  /-- How many members or fields there are now. -/
  | count (n : Nat)
deriving DecidableEq, Repr

variable (w : Workspace)

/-- The identity of the next environment. -/
def nextId : EnvId := ⟨w.environments.size⟩

/-- The environment in a slot. -/
def environment (slot : Nat) : Except Violation Environment :=
  match w.environments[slot]? with
  | some env => .ok env
  | none => .error (.unknownEnvironment slot)

/-- The workspace with an environment in a new slot. -/
def push (env : Environment) : Workspace := ⟨w.environments.push env⟩

/-- The workspace with another environment in a slot. -/
def set (slot : Nat) (env : Environment) : Workspace :=
  ⟨w.environments.setIfInBounds slot env⟩

/-- Updates the environment in a slot.  Whatever the update has made of it goes back into the slot,
also when the update fails. -/
def inSlot {α : Type} (slot : Nat) (x : Update Violation Environment α) :
    Update Violation Workspace α := fun w =>
  match w.environment slot with
  | .ok env =>
    let changed := x env
    ⟨changed.outcome, changed.lines, w.set slot changed.state⟩
  | .error violation => ⟨.error violation, [], w⟩

/-- Carries out one action. -/
def perform : Action → Update Violation Workspace Reply
  | .create => do
    let w ← get
    let env ← Environment.create w.nextId
    MonadStateOf.set (w.push env)
    return .opened w.environments.size
  | .clone slot => do
    let w ← get
    let env ← w.environment slot
    MonadStateOf.set (w.push (env.rebind w.nextId))
    return .opened w.environments.size
  | .declare slot name declaration => do
    return .declared (← inSlot slot (Environment.declare name declaration))
  | .tryDeclare slot name declaration => do
    match ← inSlot slot (Environment.tryDeclare name declaration).attempt with
    | .ok h => return .declared h
    | .error error => return .refused error
  | .addMember slot union member => do
    return .count (← inSlot slot (Environment.addMember union member))
  | .addField slot record name type => do
    return .count (← inSlot slot (Environment.addField record name type))

end Workspace

end TypeHierarchy
