import TypeHierarchy.Shape
import TypeHierarchy.TypeSet
import TypeHierarchy.Violation

/-!
# Environments

An environment is the list of types registered so far, in registration order.  A handle is looked up
only in the environment it belongs to.
-/

namespace TypeHierarchy

/-- A registered type.  Nothing changes its name; its shape grows with members or fields. -/
structure Entry where
  name : String
  shape : Shape
deriving DecidableEq, Repr

/-- The registered types, in registration order.  The identity tells handles of the environment from
those of others. -/
structure Environment where
  id : EnvId
  entries : Array Entry
deriving DecidableEq, Repr

namespace Environment

variable (env : Environment)

/-- How many types are registered. -/
def size : Nat := env.entries.size

/-- The handle of the type at a place in registration order. -/
def handle (index : Nat) : Handle := ⟨env.id, index⟩

/-- The handles of all registered types, in registration order. -/
def handles : List Handle := (List.range env.size).map env.handle

/-- All registered types as a set. -/
def allTypes : TypeSet := .ofList env.handles

/-- Whether the handle is one of this environment's own. -/
def owns (h : Handle) : Bool := h.env = env.id && h.index < env.size

theorem owns_iff {h : Handle} : env.owns h = true ↔ h.env = env.id ∧ h.index < env.size := by
  simp [owns]

theorem mem_handles {h : Handle} : h ∈ env.handles ↔ env.owns h = true := by
  rw [owns_iff, handles, List.mem_map]
  constructor
  · rintro ⟨i, hi, rfl⟩
    exact ⟨rfl, List.mem_range.mp hi⟩
  · rintro ⟨same, hi⟩
    exact ⟨h.index, List.mem_range.mpr hi, by rw [handle, ← same]⟩

/-! ## Looking up a handle -/

/-- The type that a handle stands for.  It is a violation to ask for one of another environment, or
for one past the last. -/
def entry (h : Handle) : Except Violation Entry :=
  if h.env = env.id then
    match env.entries[h.index]? with
    | some entry => .ok entry
    | none => .error (.unregistered h.index)
  else
    .error (.registry (.foreignType h))

/-- The name under which a type is registered. -/
def name (h : Handle) : Except Violation String := return (← env.entry h).name

/-- What a type is. -/
def shape (h : Handle) : Except Violation Shape := return (← env.entry h).shape

theorem exists_entry {h : Handle} (own : env.owns h = true) : ∃ e, env.entry h = .ok e := by
  obtain ⟨same, bound⟩ := env.owns_iff.mp own
  rw [size] at bound
  exact ⟨env.entries[h.index], by simp only [entry, same, if_true, Array.getElem?_eq_getElem bound]⟩

/-- The members of a union; other types have none. -/
def members (h : Handle) : Except Violation (List Handle) := return (← env.shape h).members

/-- The fields of a record; other types have none. -/
def fields (h : Handle) : Except Violation (List Field) := return (← env.shape h).fields

/-- Refuses a handle that is not the environment's own. -/
def checkOwn (h : Handle) : Except RegistryError Unit :=
  if env.owns h then .ok () else .error (.foreignType h)

/-- Stops with `violation` unless the handle is the environment's own. -/
def requireOwn (violation : Violation) (h : Handle) : Except Violation Unit :=
  if env.owns h then .ok () else .error violation

/-! ## Looking up a name -/

/-- The handle of the type registered under a name. -/
def find? (name : String) : Option Handle :=
  (env.entries.findIdx? fun entry => entry.name = name).map env.handle

/-- Whether some type has the name. -/
def isRegistered (name : String) : Bool := (env.find? name).isSome

/-- Like `find?`, with an error for a name that nothing is registered under. -/
def tryFind (name : String) : Except RegistryError Handle :=
  match env.find? name with
  | some h => .ok h
  | none => .error (.unknownName name)

/-- Like `tryFind`, for a name that the caller knows to be registered. -/
def find (name : String) : Except Violation Handle := (env.tryFind name).mapError .registry

/-! ## The types every environment starts with -/

/-- The constant type of a kind. -/
def constantEntry (kind : Kind) : Entry := ⟨kind.constantName, .constant kind⟩

/-- The primitive of a kind is the subset of the constant type at the kind's place. -/
def primitiveEntry (id : EnvId) (kind : Kind) : Entry :=
  ⟨kind.primitiveName, .subset ⟨id, kind.position⟩ true⟩

/-- The types of a fresh environment: the constant types, then the primitive of each. -/
def initial (id : EnvId) : Environment :=
  ⟨id, (Kind.all.map constantEntry ++ Kind.all.map (primitiveEntry id)).toArray⟩

/-- The handle of the constant type of a kind. -/
def constantType (kind : Kind) : Handle := env.handle kind.position

/-- The handle of the primitive of a kind, behind all constant types. -/
def primitiveType (kind : Kind) : Handle := env.handle (Kind.all.length + kind.position)

/-- The same types under another identity; the handles between them follow. -/
def rebind (id : EnvId) : Environment where
  id := id
  entries := env.entries.map fun entry =>
    { entry with shape := entry.shape.mapHandles fun h => ⟨id, h.index⟩ }

/-- How many of the types are unions. -/
def unionCount : Nat := env.entries.countP fun entry => entry.shape.isUnion

end Environment

end TypeHierarchy
