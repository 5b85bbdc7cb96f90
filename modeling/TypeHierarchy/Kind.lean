/-!
# Kinds of constants

The language has four kinds of constants.  Each kind is a type of its own, the constant type, and has
one primitive subset that programs use by name.  An attribute is a kind, or `record` for a type that
reduces to none of them.
-/

namespace TypeHierarchy

/-- A kind of constants. -/
inductive Kind where
  | signed
  | unsigned
  | float
  | symbol
deriving DecidableEq, Repr

namespace Kind

/-- Place in the order `signed < unsigned < float < symbol`. -/
def rank : Kind → Nat
  | signed => 0
  | unsigned => 1
  | float => 2
  | symbol => 3

instance : LT Kind := ⟨fun a b => a.rank < b.rank⟩

instance (a b : Kind) : Decidable (a < b) := inferInstanceAs (Decidable (a.rank < b.rank))

/-- The kinds in the order in which an environment registers them. -/
def all : List Kind := [signed, float, symbol, unsigned]

/-- Place of a kind in `all`. -/
def position : Kind → Nat
  | signed => 0
  | float => 1
  | symbol => 2
  | unsigned => 3

theorem getElem?_all_position (k : Kind) : all[k.position]? = some k := by cases k <;> rfl

theorem mem_all (k : Kind) : k ∈ all := List.mem_of_getElem? k.getElem?_all_position

/-- The name under which the constant type of the kind is registered. -/
def constantName : Kind → String
  | signed => "numberConstant"
  | unsigned => "unsignedConstant"
  | float => "floatConstant"
  | symbol => "symbolConstant"

/-- The name under which the primitive of the kind is registered. -/
def primitiveName : Kind → String
  | signed => "number"
  | unsigned => "unsigned"
  | float => "float"
  | symbol => "symbol"

end Kind

/-- The kind of a type, or `record` for a type that is of no kind. -/
inductive Attribute where
  | ofKind (kind : Kind)
  | record
deriving DecidableEq, Repr

namespace Attribute

/-- Kinds come in their own order, below `record`. -/
def rank : Attribute → Nat
  | ofKind kind => kind.rank
  | record => 4

instance : LT Attribute := ⟨fun a b => a.rank < b.rank⟩

instance (a b : Attribute) : Decidable (a < b) := inferInstanceAs (Decidable (a.rank < b.rank))

/-- The attribute in words. -/
def name : Attribute → String
  | ofKind .signed => "signed"
  | ofKind .unsigned => "unsigned"
  | ofKind .float => "float"
  | ofKind .symbol => "symbol"
  | record => "record"

/-- The letter that stands for the attribute in a qualifier. -/
def tag : Attribute → Char
  | ofKind .signed => 'i'
  | ofKind .unsigned => 'u'
  | ofKind .float => 'f'
  | ofKind .symbol => 's'
  | record => 'r'

end Attribute

end TypeHierarchy
