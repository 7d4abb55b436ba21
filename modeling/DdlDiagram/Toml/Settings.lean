import DdlDiagram.Settings
import DdlDiagram.Toml.Reader

/-!
# Settings in TOML

Settings are written as a TOML document. Its table `parse` holds the words that mark directives as
`directive_prefixes`, its table `format` the width of the indentation as `indent`. What is missing
takes its default and what is unknown is passed over, but numbers that no machine type holds are
refused anywhere. A section may also be an array, which gives its settings by position, and what
follows them there is not looked at. A date is a section without settings.
-/

namespace DdlDiagram
namespace Settings

/-- Whether a floating-point number is within the range of double precision: below the middle
between the largest double and the next power of two. -/
def inDoubleRange (significand : Nat) (exponent : Int) : Bool :=
  let places := (Nat.toDigits 10 significand).length
  if significand = 0 || places + exponent ≤ 308 then true
  else if 310 < exponent then false
  else significand * Nat.pow 10 exponent.toNat <
    (Nat.pow 2 1024 - Nat.pow 2 970) * Nat.pow 10 (-exponent).toNat

mutual

/-- Whether all numbers in a value are written out and within the ranges of machine types: 128
bits for integers, signed or unsigned, and double precision. -/
def inRange : Toml.Value → Bool
  | .integer n => -2 ^ 127 ≤ n && n < 2 ^ 128
  | .baseMark => false
  | .floating (.decimal significand exponent) => inDoubleRange significand exponent
  | .array items => allInRange items
  | .tables items => allInRange items
  | .table _ entries => entriesInRange entries
  | _ => true

def allInRange : List Toml.Value → Bool
  | [] => true
  | item :: rest => inRange item && allInRange rest

def entriesInRange : List (Text × Toml.Value) → Bool
  | [] => true
  | (_, value) :: rest => inRange value && entriesInRange rest

end

def texts? : Toml.Value → Option (List Text)
  | .array items => items.mapM fun
    | .string t => some t
    | _ => none
  | _ => none

/-- A width of indentation that fits a machine word. -/
def width? : Toml.Value → Option Nat
  | .integer n => if 0 ≤ n ∧ n < Nat.pow 2 64 then some n.toNat else none
  | _ => none

/-- The one setting of a section, read by `read`: in a table under its key, in an array at the
first place. Settings that are missing give the default. -/
def setting? (key : Text) (read : Toml.Value → Option α) (fallback : α) :
    Option Toml.Value → Option α
  | none => some fallback
  | some (.table _ entries) =>
    if entriesInRange (entries.filter (·.1 ≠ key)) then
      (Toml.Entries.get? entries key).elim (some fallback) read
    else none
  | some (.array items) => items.head?.elim (some fallback) read
  | some (.tables items) => items.head?.elim (some fallback) read
  | some (.moment _) => some fallback
  | some _ => none

/-- The settings that a TOML document gives, if it is well formed and all of its settings have
the types they should have. -/
def ofToml? (t : Text) : Option Settings := do
  let document ← Toml.document? t
  let directiveMarks ← setting? "directive_prefixes".toList texts? default.directiveMarks
    (document.get? "parse".toList)
  let indent ← setting? "indent".toList width? default.indent (document.get? "format".toList)
  let others := document.filter fun (key, _) => key ≠ "parse".toList && key ≠ "format".toList
  if entriesInRange others then some { directiveMarks, indent } else none

end Settings
end DdlDiagram
