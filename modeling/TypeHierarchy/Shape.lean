import TypeHierarchy.Handle
import TypeHierarchy.Kind

/-!
# Shapes

What a type is: the constants of one kind, a subset of one base type, a union of member types, or a
record of named fields.  Members and fields stand in the order in which they were added.
-/

namespace TypeHierarchy

/-- A named field of a record.  Two fields of a record may have the same name. -/
structure Field where
  name : String
  type : Handle
deriving DecidableEq, Repr

/-- What a type is made of. -/
inductive Shape where
  | constant (kind : Kind)
  /-- `primitive` marks the one subset of a constant type that every environment starts with. -/
  | subset (base : Handle) (primitive : Bool)
  | union (members : List Handle)
  | record (fields : List Field)
deriving DecidableEq, Repr

namespace Shape

/-- The word for the shape in messages and traces. -/
def label : Shape → String
  | constant _ => "constant"
  | subset _ true => "primitive"
  | subset _ false => "subset"
  | union _ => "union"
  | record _ => "record"

/-- Whether the shape is a union, with members or without. -/
def isUnion : Shape → Bool
  | union _ => true
  | _ => false

/-- Whether the shape is a record, with fields or without. -/
def isRecord : Shape → Bool
  | record _ => true
  | _ => false

/-- The members of a union; other shapes have none. -/
def members : Shape → List Handle
  | union members => members
  | _ => []

/-- The fields of a record; other shapes have none. -/
def fields : Shape → List Field
  | record fields => fields
  | _ => []

/-- Every handle the shape refers to, in order. -/
def references : Shape → List Handle
  | constant _ => []
  | subset base _ => [base]
  | union members => members
  | record fields => fields.map Field.type

/-- The types one step away along members of unions and, where asked for, fields of records. -/
def successors (throughFields : Bool) : Shape → List Handle
  | union members => members
  | record fields => if throughFields then fields.map Field.type else []
  | _ => []

/-- The same shape with every handle replaced. -/
def mapHandles (f : Handle → Handle) : Shape → Shape
  | constant kind => constant kind
  | subset base primitive => subset (f base) primitive
  | union members => union (members.map f)
  | record fields => record (fields.map fun field => { field with type := f field.type })

@[simp] theorem references_mapHandles (f : Handle → Handle) (s : Shape) :
    (s.mapHandles f).references = s.references.map f := by
  cases s <;> simp [mapHandles, references]

@[simp] theorem label_mapHandles (f : Handle → Handle) (s : Shape) :
    (s.mapHandles f).label = s.label := by
  rcases s with _ | ⟨_, _ | _⟩ | _ | _ <;> rfl

end Shape

end TypeHierarchy
