import Predictive.Error
import Predictive.Text.Numeral
import Predictive.Text.Utf8

/-!
# Scanning JSON

The pieces of a JSON text, read from its bytes: blanks, words, strings and numbers. Each reader yields what it
read and the bytes after it, or says whether the text is malformed or ends too early. The first problem from
the left decides.
-/

namespace Predictive.Json

/-- The bytes of a text that are still to be read. -/
abbrev Bytes := List UInt8

/-- The byte of an ASCII character. -/
def byte (c : Char) : UInt8 := UInt8.ofNat c.toNat

def isBlank (b : UInt8) : Bool := b = byte ' ' || b = byte '\n' || b = byte '\t' || b = byte '\r'

def skipBlank (bytes : Bytes) : Bytes := bytes.dropWhile isBlank

/-- Reads the letters of a word. -/
def word : List Char → Bytes → Except JsonError Bytes
  | [], rest => .ok rest
  | _ :: _, [] => .error .truncated
  | c :: cs, b :: rest => if b = byte c then word cs rest else .error .malformed

/-- Reads a colon, with blanks around it left to others. -/
def colon (bytes : Bytes) : Except JsonError Bytes :=
  match skipBlank bytes with
  | [] => .error .truncated
  | b :: rest => if b = byte ':' then .ok rest else .error .malformed

/-! ### Strings -/

/-- Where the reader stands in a string. -/
inductive StringState where
  /-- Between characters. -/
  | plain
  /-- After a backslash. -/
  | escape
  /-- After `\u`, with the digits read so far; `high` is the first half of a pair. -/
  | digits (high : Option Nat) (read : List UInt8)
  /-- After the first half of a pair, where a backslash must follow. -/
  | backslash (high : Nat)
  /-- After that backslash, where `u` must follow. -/
  | marker (high : Nat)

/-- The number that hexadecimal digits stand for. -/
def hexNumber? (digits : List UInt8) : Option Nat :=
  digits.foldl (fun n d => do return (← n) * 16 + (← Numeral.hexValue? (Char.ofNat d.toNat))) (some 0)

/-- The byte that a simple escape stands for. -/
def simpleEscape? (b : UInt8) : Option UInt8 :=
  if b = byte '"' then some (byte '"')
  else if b = byte '\\' then some (byte '\\')
  else if b = byte '/' then some (byte '/')
  else if b = byte 'b' then some 0x08
  else if b = byte 'f' then some 0x0C
  else if b = byte 'n' then some 0x0A
  else if b = byte 'r' then some 0x0D
  else if b = byte 't' then some 0x09
  else none

/-- The bytes of a character by number. -/
def charBytes (n : Nat) : List UInt8 := Text.utf8 (Char.ofNat n).toString

/-- What the four digits after `\u` mean: a character, or the first half of a pair. -/
inductive Escaped where
  | char (n : Nat)
  | high (n : Nat)

/-- Judges the number of four digits, after the first half of a pair or on its own. -/
def escaped (high : Option Nat) (n : Nat) : Except JsonError Escaped :=
  match high with
  | none =>
    if 0xDC00 ≤ n ∧ n ≤ 0xDFFF then .error .malformed
    else if 0xD800 ≤ n ∧ n ≤ 0xDBFF then .ok (.high n)
    else .ok (.char n)
  | some h =>
    if 0xDC00 ≤ n ∧ n ≤ 0xDFFF then .ok (.char ((h - 0xD800) * 0x400 + (n - 0xDC00) + 0x10000))
    else .error .malformed

/-- Reads a string up to its closing quote, where `read` holds its bytes so far in reverse. -/
def stringFrom : StringState → (read : List UInt8) → Bytes → Except JsonError (List UInt8 × Bytes)
  | _, _, [] => .error .truncated
  | .plain, read, b :: rest =>
    if b = byte '"' then .ok (read.reverse, rest)
    else if b = byte '\\' then stringFrom .escape read rest
    else if b < 0x20 then .error .malformed
    else stringFrom .plain (b :: read) rest
  | .escape, read, b :: rest =>
    if b = byte 'u' then stringFrom (.digits none []) read rest
    else
      match simpleEscape? b with
      | some c => stringFrom .plain (c :: read) rest
      | none => .error .malformed
  | .digits high [d₃, d₂, d₁], read, b :: rest =>
    match hexNumber? [d₁, d₂, d₃, b] with
    | none => .error .malformed
    | some n =>
      match escaped high n with
      | .error e => .error e
      | .ok (.char n) => stringFrom .plain ((charBytes n).reverse ++ read) rest
      | .ok (.high h) => stringFrom (.backslash h) read rest
  | .digits high ds, read, b :: rest => stringFrom (.digits high (b :: ds)) read rest
  | .backslash high, read, b :: rest =>
    if b = byte '\\' then stringFrom (.marker high) read rest else .error .malformed
  | .marker high, read, b :: rest =>
    if b = byte 'u' then stringFrom (.digits (some high) []) read rest else .error .malformed

/-- Reads a string after its opening quote. Its bytes must be valid UTF-8. -/
def string (bytes : Bytes) : Except JsonError (String × Bytes) := do
  let (read, rest) ← stringFrom .plain [] bytes
  match Text.ofUtf8? read with
  | some s => .ok (s, rest)
  | none => .error .malformed

/-! ### Numbers -/

def isDigit (b : UInt8) : Bool := byte '0' ≤ b && b ≤ byte '9'

def digitValue (b : UInt8) : Nat := b.toNat - (byte '0').toNat

/-- Splits the digits off the front. -/
def splitDigits (bytes : Bytes) : List Nat × Bytes :=
  ((bytes.takeWhile isDigit).map digitValue, bytes.dropWhile isDigit)

/-- A number that was read: a natural number in plain digits, or any other. -/
inductive Number where
  | natural (n : Nat)
  | other
deriving DecidableEq, Inhabited

/-- Appends digits to a number as long as it stays below `2 ^ 64`; also counts the digits taken. -/
def appendDigits (n : Nat) : List Nat → Nat × Nat
  | [] => (n, 0)
  | d :: rest =>
    if n * 10 + d < UInt64.size then
      let (n, taken) := appendDigits (n * 10 + d) rest
      (n, taken + 1)
    else (n, 0)

/-- The number with 53 significant bits that is nearest to `n`; of two, the one with an even last bit. -/
def nearest53 (n : Nat) : Nat :=
  if n < 1 <<< 53 then n
  else
    let unit := 1 <<< (n.log2 - 52)
    let down := n / unit
    let twice := 2 * (n % unit)
    if twice < unit ∨ (twice = unit ∧ down % 2 = 0) then down * unit else (down + 1) * unit

/-- Whether `significand * 10 ^ exponent` is beyond the largest number of double precision. -/
def beyondDouble (significand : Nat) (exponent : Int) : Bool :=
  if exponent < 0 then false
  else if 308 < exponent then significand ≠ 0
  else (1 <<< 1024) - (1 <<< 970) ≤ nearest53 significand * nearest53 (Nat.pow 10 exponent.toNat)

/-- The outcome of a number that is not natural: it must be within double precision. -/
def otherNumber (significand : Nat) (exponent : Int) (rest : Bytes) : Except JsonError (Number × Bytes) :=
  if beyondDouble significand exponent then .error .malformed else .ok (.other, rest)

/-- Reads the rest of a number after the letter of its exponent. -/
def exponentPart (significand : Nat) (exponent : Int) (bytes : Bytes) : Except JsonError (Number × Bytes) :=
  let (negative, bytes) := match bytes with
    | b :: rest => if b = byte '-' then (true, rest) else if b = byte '+' then (false, rest) else (false, bytes)
    | [] => (false, [])
  let (digits, rest) := splitDigits bytes
  match digits, rest with
  | [], [] => .error .truncated
  | [], _ :: _ => .error .malformed
  | _, _ =>
    let size : Nat := digits.foldl (fun n d => n * 10 + d) 0
    if negative then otherNumber significand (exponent - size) rest
    else if size ≤ 2147483647 then otherNumber significand (exponent + size) rest
    else if significand = 0 then .ok (.other, rest)
    else .error .malformed

/-- Reads the rest of a number after its decimal point. -/
def fractionPart (significand : Nat) (exponent : Int) (bytes : Bytes) : Except JsonError (Number × Bytes) :=
  let (digits, rest) := splitDigits bytes
  match digits, rest with
  | [], [] => .error .truncated
  | [], _ :: _ => .error .malformed
  | _, _ =>
    let (significand, taken) := appendDigits significand digits
    let exponent := exponent - taken
    match rest with
    | b :: after =>
      if b = byte 'e' ∨ b = byte 'E' then exponentPart significand exponent after
      else otherNumber significand exponent rest
    | [] => otherNumber significand exponent rest

/-- Reads a number after its sign. -/
def number (negative : Bool) (bytes : Bytes) : Except JsonError (Number × Bytes) :=
  let (digits, rest) := splitDigits bytes
  match digits, rest with
  | [], [] => .error .truncated
  | [], _ :: _ => .error .malformed
  | 0 :: _ :: _, _ => .error .malformed
  | _, _ =>
    let (significand, taken) := appendDigits 0 digits
    let exponent : Int := (digits.length - taken : Nat)
    let plain : Except JsonError (Number × Bytes) :=
      if taken < digits.length then otherNumber significand exponent rest
      else if negative then .ok (.other, rest)
      else .ok (.natural significand, rest)
    match rest with
    | b :: after =>
      if b = byte '.' then fractionPart significand exponent after
      else if b = byte 'e' ∨ b = byte 'E' then exponentPart significand exponent after
      else plain
    | [] => plain

/-! ### Other values -/

/-- What is wrong with a value, at its first byte, where one of another kind is wanted: words, numbers and strings
are read to their end, and only then found unsuitable. -/
def mismatch (bytes : Bytes) : JsonError :=
  let after {α : Type} (r : Except JsonError α) : JsonError :=
    match r with
    | .ok _ => .unsuitable
    | .error e => e
  match bytes with
  | [] => .truncated
  | b :: rest =>
    if b = byte 'n' then after (word "ull".toList rest)
    else if b = byte 't' then after (word "rue".toList rest)
    else if b = byte 'f' then after (word "alse".toList rest)
    else if b = byte '-' then after (number true rest)
    else if isDigit b then after (number false bytes)
    else if b = byte '"' then after (string rest)
    else if b = byte '[' ∨ b = byte '\x7b' then .unsuitable
    else .malformed

end Predictive.Json
