import TypeHierarchy.Text.Blank

/-!
# Log settings

What is logged, and in which format, is read from variables.  A log subscriber is installed at most
once in a process, and only if some variable says what to log.
-/

namespace TypeHierarchy.Logging

/-- How log lines look. -/
inductive Format where
  | text
  | tree
  | json
deriving DecidableEq, Repr

namespace Format

/-- Reads a format name; blanks around it and the case of ASCII letters do not matter, and any
other text means `text`. -/
def parse (value : String) : Format :=
  match String.ofList ((Text.trim value.toList).map Char.toLower) with
  | "tree" => tree
  | "json" => json
  | _ => text

end Format

/-- What the variables say about logging. -/
structure Settings where
  /-- What to log. -/
  directives : Option String
  format : Format
deriving DecidableEq, Repr

namespace Settings

/-- Reads the settings from variables; `STRATA_LOG` goes before `RUST_LOG`. -/
def ofVariables (lookup : String → Option String) : Settings where
  directives := (lookup "STRATA_LOG").or (lookup "RUST_LOG")
  format := ((lookup "STRATA_LOG_FORMAT").map Format.parse).getD .text

/-- Whether some variable says what to log. -/
def isEnabled (s : Settings) : Bool := s.directives.isSome

/-- Whether an attempt to install succeeds, given whether a subscriber is in place already. -/
def installs (s : Settings) (inPlace : Bool) : Bool := s.isEnabled && !inPlace

/-- The results of `n` attempts in a process, one after the other. -/
def attempts (s : Settings) : (n : Nat) → (inPlace : Bool) → List Bool
  | 0, _ => []
  | n + 1, inPlace => s.installs inPlace :: s.attempts n (inPlace || s.installs inPlace)

end Settings

end TypeHierarchy.Logging
