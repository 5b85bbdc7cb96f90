import TypeHierarchy.Environment
import TypeHierarchy.Update

/-!
# Declaring types

A type is declared once, under a name that is still free.  Unions and records are declared empty and
grow afterwards, so types can refer to each other in cycles.  Every change leaves an event behind.  All
checks come first: a request that is refused has changed nothing.
-/

namespace TypeHierarchy

/-- What a program can declare; constant types and primitives exist from the start. -/
inductive Declaration where
  | subset (base : Handle)
  | union
  | record
deriving DecidableEq, Repr

/-- The shape a declared type starts with. -/
def Declaration.shape : Declaration → Shape
  | subset base => .subset base false
  | union => .union []
  | record => .record []

namespace Shape

/-- A union with one more member at the end. -/
def withMember (member : Handle) : Shape → Except Violation Shape
  | union members => .ok (union (members ++ [member]))
  | other => .error (.notUnion other.label)

/-- A record with one more field at the end. -/
def withField (field : Field) : Shape → Except Violation Shape
  | record fields => .ok (record (fields ++ [field]))
  | other => .error (.notRecord other.label)

end Shape

namespace Environment

/-- A fresh environment, with an event for each type it starts with. -/
def create (id : EnvId) : Traced Environment where
  outcome := .ok (initial id)
  lines := (initial id).entries.toList.map fun entry =>
    .event (.registered entry.name entry.shape.label)

/-! ## One more type -/

/-- Appends a type under a name that is still free. -/
def register (name : String) (shape : Shape) : Update RegistryError Environment Handle := do
  let env ← get
  if env.isRegistered name then
    Update.fail (.duplicateName name)
  else
    Update.emit (.registered name shape.label)
    set { env with entries := env.entries.push ⟨name, shape⟩ }
    return env.handle env.size

/-- Declares a type.  The base of a subset is checked before the name. -/
def tryDeclare (name : String) (declaration : Declaration) :
    Update RegistryError Environment Handle := do
  if let .subset base := declaration then
    (← get).checkOwn base
  register name declaration.shape

/-- Like `tryDeclare`, for a declaration that the caller knows to be acceptable. -/
def declare (name : String) (declaration : Declaration) : Update Violation Environment Handle :=
  (tryDeclare name declaration).mapError .registry

/-! ## One more element -/

/-- Replaces the shape of a registered type. -/
def setShape (env : Environment) (h : Handle) (shape : Shape) : Environment :=
  { env with entries := env.entries.modify h.index fun entry => { entry with shape } }

/-- Stops unless both handles are the environment's own. -/
def requireBoth (target part : Handle) : Update Violation Environment Unit := do
  (← get).requireOwn (.registry (.foreignType target)) target
  (← get).requireOwn (.registry (.foreignType part)) part

/-- Puts a larger shape in the place of a type's shape; says how many references it has. -/
def enlarge (target : Handle) (larger : Shape → Except Violation Shape) :
    Update Violation Environment Nat := do
  let env ← get
  let shape ← larger (← env.shape target)
  set (env.setShape target shape)
  return shape.references.length

/-- Appends a member to a union; also says how many it has then. -/
def addMember (union member : Handle) : Update Violation Environment Nat := do
  requireBoth union member
  let count ← enlarge union (Shape.withMember member)
  Update.emit (.addedMember union.index member.index)
  return count

/-- Appends a field to a record; also says how many it has then. -/
def addField (record : Handle) (name : String) (type : Handle) :
    Update Violation Environment Nat := do
  requireBoth record type
  Update.emit (.addingField record.index name)
  let count ← enlarge record (Shape.withField ⟨name, type⟩)
  Update.emit (.addedField record.index)
  return count

end Environment

end TypeHierarchy
