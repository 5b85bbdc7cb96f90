/-!
# Interchange values

The values in which positions, options and diagnostics are exchanged with other tools: the data model
of JSON, where a number keeps the places after its decimal point.  A number is an integer only if it
is written without any.
-/

namespace TypeHierarchy.Interchange

/-- A value of the data model.  An object is the list of its fields. -/
inductive Value where
  | null
  | bool (b : Bool)
  /-- The number `mantissa / 10 ^ places`. -/
  | number (mantissa : Int) (places : Nat)
  | string (s : String)
  | array (items : List Value)
  | object (fields : List (String × Value))
deriving Inhabited

namespace Value

/-- A natural number, written without a decimal point. -/
def ofNat (n : Nat) : Value := number n 0

/-- The first field of an object with the name; other values have no fields. -/
def field? (v : Value) (name : String) : Option Value :=
  match v with
  | object fields => fields.lookup name
  | _ => none

/-- A truth value, if it is one. -/
def bool? : Value → Option Bool
  | bool b => some b
  | _ => none

/-- A text, if it is one. -/
def string? : Value → Option String
  | string s => some s
  | _ => none

/-- An integer that fits into 32 bits. -/
def word? : Value → Option UInt32
  | number mantissa 0 =>
    if 0 ≤ mantissa ∧ mantissa < 4294967296 then some (UInt32.ofNat mantissa.toNat) else none
  | _ => none

end Value

end TypeHierarchy.Interchange
