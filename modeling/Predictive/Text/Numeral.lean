/-!
# Numerals

Reading a natural number below `2 ^ 64` in a base of at most sixteen, with an optional plus sign, and writing
one in a fixed number of digits of base sixteen. The digits are read from the left and the first
problem decides the error.
-/

namespace Predictive

/-- Why a text is no numeral. -/
inductive NumeralError where
  | empty
  | invalidDigit
  | overflow
deriving DecidableEq, Inhabited

namespace NumeralError

def message : NumeralError → String
  | empty => "cannot parse integer from empty string"
  | invalidDigit => "invalid digit found in string"
  | overflow => "number too large to fit in target type"

end NumeralError

namespace Numeral

/-- The value of a digit of base sixteen, in either case. -/
def hexValue? (c : Char) : Option Nat :=
  if '0' ≤ c ∧ c ≤ '9' then some (c.toNat - '0'.toNat)
  else if 'a' ≤ c ∧ c ≤ 'f' then some (c.toNat - 'a'.toNat + 10)
  else if 'A' ≤ c ∧ c ≤ 'F' then some (c.toNat - 'A'.toNat + 10)
  else none

/-- The value of a digit in a base of at most sixteen. -/
def digitValue? (base : Nat) (c : Char) : Option Nat := (hexValue? c).filter (· < base)

/-- Reads on after digits of value `value`. -/
def digits (base : Nat) (value : Nat) : List Char → Except NumeralError Nat
  | [] => .ok value
  | c :: rest =>
    match digitValue? base c with
    | none => .error .invalidDigit
    | some d => if value * base + d < UInt64.size then digits base (value * base + d) rest else .error .overflow

/-- Reads a natural number below `2 ^ 64`; a plus sign may stand in front of the digits. -/
def read (base : Nat) : List Char → Except NumeralError Nat
  | [] => .error .empty
  | ['+'] => .error .invalidDigit
  | '+' :: rest => digits base 0 rest
  | cs => digits base 0 cs

/-- The digit of base sixteen of a value, in lower case. -/
def hexDigit (n : Nat) : Char := Nat.digitChar (n % 16)

/-- The last `width` digits of `n` in base sixteen. -/
def hex : (width n : Nat) → List Char
  | 0, _ => []
  | width + 1, n => hex width (n / 16) ++ [hexDigit n]

@[simp] theorem length_hex (width n : Nat) : (hex width n).length = width := by
  induction width generalizing n with
  | zero => rfl
  | succ width ih => simp [hex, ih]

end Numeral

end Predictive
