import TypeHierarchy.Handle

/-!
# Errors

A `RegistryError` is an answer that a caller can act on.  A `Violation` is a broken contract: the
request made no sense for the environment it was put to, and nothing was changed.
-/

namespace TypeHierarchy

/-- Why a name or a type is not accepted. -/
inductive RegistryError where
  | duplicateName (name : String)
  | unknownName (name : String)
  | foreignType (handle : Handle)
deriving DecidableEq, Repr

namespace RegistryError

/-- The error in words. -/
def message : RegistryError → String
  | duplicateName name => s!"type `{name}` is already registered"
  | unknownName name => s!"type `{name}` is not registered"
  | foreignType handle => s!"type #{handle.index} belongs to a different type environment"

end RegistryError

/-- How a contract was broken. -/
inductive Violation where
  /-- A registry error met where the caller had promised there would be none. -/
  | registry (error : RegistryError)
  /-- A handle of the right environment that points past its last type. -/
  | unregistered (index : Nat)
  | notUnion (label : String)
  | notRecord (label : String)
  | foreignSubtypeQuery
  | foreignBoundQuery
  | universalEnumeration
  /-- A query nested deeper than its budget allows. -/
  | budgetExhausted
  | unknownEnvironment (slot : Nat)
deriving DecidableEq, Repr

namespace Violation

/-- The violation in words. -/
def message : Violation → String
  | registry error => error.message
  | unregistered index => s!"type #{index} is not registered"
  | notUnion label => s!"cannot add a union member to a {label} type"
  | notRecord label => s!"cannot add a record field to a {label} type"
  | foreignSubtypeQuery => "subtype query on a type of a different environment"
  | foreignBoundQuery => "bound query on a type of a different environment"
  | universalEnumeration => "unable to enumerate the universal type set"
  | budgetExhausted => "query nested deeper than its budget"
  | unknownEnvironment slot => s!"environment {slot} does not exist"

end Violation

end TypeHierarchy
