import Predictive.Text.Numeral

/-!
# Fingerprints

A fingerprint is a word of 64 bits that identifies the content of a grammar. It is written as sixteen digits of
base sixteen, and read with any number of `0x` in front.
-/

namespace Predictive

/-- A content hash of a grammar. -/
structure Fingerprint where
  value : UInt64
deriving DecidableEq, Inhabited

namespace Fingerprint

/-- Sixteen digits of base sixteen, in lower case. -/
def text (f : Fingerprint) : String := String.ofList (Numeral.hex 16 f.value.toNat)

/-- Drops every `0x` in front. -/
def dropMarks : List Char → List Char
  | '0' :: 'x' :: rest => dropMarks rest
  | cs => cs

/-- Reads a fingerprint from its digits in base sixteen. -/
def read (text : String) : Except NumeralError Fingerprint :=
  (Numeral.read 16 (dropMarks text.toList)).map fun n => ⟨UInt64.ofNat n⟩

/-! ### FNV-1a -/

/-- The state of the hash before any byte. -/
def basis : UInt64 := 0xcbf29ce484222325

/-- The multiplier of the hash. -/
def prime : UInt64 := 0x100000001b3

/-- Takes one byte into the state of the hash. -/
def step (state : UInt64) (byte : UInt8) : UInt64 := (state ^^^ byte.toUInt64) * prime

/-- The 64-bit FNV-1a hash of a list of bytes. -/
def ofBytes (bytes : List UInt8) : Fingerprint := ⟨bytes.foldl step basis⟩

end Fingerprint

end Predictive
