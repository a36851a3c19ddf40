import Predictive.Error
import Predictive.Fingerprint

/-!
# Layouts

A layout is a hash function for the keys of a prediction table. It puts the terminals and the nonterminals in an
order. The positions of a key's two symbols make up a raw hash,

  `major position * 2 ^ shift + minor position`,

where either symbol may be the major one, and the bucket of the key is the raw hash modulo `modulus`. Bits beyond
the 64th are lost before the minor position is added.
-/

namespace Predictive

/-- Which symbol of a key takes the high bits of its raw hash. -/
inductive Major where
  | nonterminal
  | terminal
deriving DecidableEq, Inhabited

def Major.tag : Major → String
  | nonterminal => "nt"
  | terminal => "t"

/-- The shift used where none is asked for. -/
def defaultShift : Nat := 6

/-- The raw hash of a key by the positions of its symbols, for a shift below 64. -/
def rawHash (major : Major) (shift nt t : Nat) : Nat :=
  match major with
  | .nonterminal => (nt <<< shift) % UInt64.size + t
  | .terminal => (t <<< shift) % UInt64.size + nt

/-- The raw hash of a key; fails where the shift is not below 64. -/
def rawHash? (major : Major) (shift nt t : Nat) : Except Error Nat :=
  if shift < 64 then .ok (rawHash major shift nt t) else .error .arithmetic

/-- A raw hash reduced to a bucket; fails where there is none. -/
def reduce? (raw modulus : Nat) : Except Error Nat :=
  if modulus = 0 then .error .arithmetic else .ok (raw % modulus)

/-- A hash function for table keys, with symbols by display name. -/
structure Layout where
  terminals : List String
  nonterminals : List String
  modulus : UInt32
  shift : UInt32
  major : Major
  /-- The grammar that the layout was made for, if known. -/
  fingerprint : Option Fingerprint
deriving DecidableEq, Inhabited

namespace Layout

/-- The bucket of a key by the positions of its symbols, for a shift below 64 and a positive modulus. -/
def bucket (l : Layout) (nt t : Nat) : Nat := rawHash l.major l.shift.toNat nt t % l.modulus.toNat

/-- Accepts a layout that can be used with some grammar: the modulus is positive and the shift below 32. -/
def validate (l : Layout) : Except Error Layout :=
  if l.modulus = 0 then .error (.invalidLayout .zeroModulus)
  else if 32 ≤ l.shift.toNat then .error (.invalidLayout (.wideShift l.shift.toNat))
  else .ok l

end Layout

end Predictive
