import Predictive.Layout.Placement
import Predictive.Packed.Identifier
import Predictive.Report

/-!
# Packed tables

A packed table is a prediction table laid out under a layout. Every key has a bucket, which tells where in a
common pool of symbols its payload stands. Symbols are given by their positions in the layout. Buckets do not store
their keys: a pair of positions that is no key may find the bucket of another one.
-/

namespace Predictive

/-- A symbol of the pool: here a terminal or nonterminal is given by its position in the layout. -/
abbrev Slot := Symbol

/-- A bucket. One that is not valid stands for an error in the input; a valid one of length zero drops the
nonterminal. Offsets and lengths are not cut to 32 bits here, so what holds of them carries over to words of 32 bits
while the pool has less than `2 ^ 32` slots. -/
structure Bucket where
  valid : Bool := false
  offset : Nat := 0
  length : Nat := 0
deriving DecidableEq, Inhabited

/-- The symbols of a packed table in the order of the layout, with their names. -/
structure SymbolNames where
  terminals : List String
  terminalNames : List String
  nonterminals : List String
  nonterminalNames : List String
deriving DecidableEq, Inhabited

namespace SymbolNames

/-- Names the symbols of a layout. -/
def ofLayout (l : Layout) : Except Error SymbolNames := do
  let terminalNames ← identifiers l.terminals
  let nonterminalNames ← identifiers l.nonterminals
  return ⟨l.terminals, terminalNames, l.nonterminals, nonterminalNames⟩

/-- The position of a terminal by display name. -/
def terminal? (names : SymbolNames) (display : String) : Option Nat := names.terminals.idxOf? display

/-- The position of a nonterminal by display name. -/
def nonterminal? (names : SymbolNames) (display : String) : Option Nat := names.nonterminals.idxOf? display

end SymbolNames

/-- A prediction table as buckets and a pool. -/
structure PackedTable where
  symbols : SymbolNames
  modulus : UInt32
  shift : UInt32
  major : Major
  buckets : Array Bucket
  pool : List Slot
deriving DecidableEq, Inhabited

namespace PackedTable

/-- A symbol of the grammar as a slot. -/
def slot (num : Numbering) : Symbol → Slot
  | .terminal t => .terminal (num.terminalAt t)
  | .nonterminal n => .nonterminal (num.nonterminalAt n)

/-- Puts payloads in their places one after the other: the buckets and the pool after those so far. An empty payload
has offset zero. -/
def fill : List (Nat × List Slot) → Array Bucket → List Slot → Array Bucket × List Slot
  | [], buckets, pool => (buckets, pool)
  | (place, payload) :: rest, buckets, pool =>
    let offset := if payload.isEmpty then 0 else pool.length
    fill rest (buckets.setIfInBounds place ⟨true, offset, payload.length⟩) (pool ++ payload)

/-- Lays a table out. Fails if the layout was made for another grammar or other symbols, if a symbol has no name, or
if two keys share a bucket. -/
def pack (g : Grammar) (table : Table) (l : Layout) : Except Error PackedTable := do
  l.checkFingerprint g
  let num ← Numbering.resolve g l
  let symbols ← SymbolNames.ofLayout l
  let places ← l.buckets g table num
  let payloads := table.entries.map fun (_, p) => (p.payload g).map (slot num)
  let (buckets, pool) := fill (places.zip payloads) (Array.replicate l.modulus.toNat {}) []
  return ⟨symbols, l.modulus, l.shift, l.major, buckets, pool⟩

variable (t : PackedTable)

/-- The number of buckets in use. -/
def validBuckets : Nat := (t.buckets.toList.filter (·.valid)).length

/-- The index of the bucket for the positions of a nonterminal and a terminal. -/
def index (nt term : Nat) : Nat := rawHash t.major t.shift.toNat nt term % t.modulus.toNat

/-- The bucket for the positions of a nonterminal and a terminal. -/
def bucket (nt term : Nat) : Bucket := t.buckets.getD (t.index nt term) {}

/-- The payload of a bucket. -/
def payload (b : Bucket) : List Slot := (t.pool.drop b.offset).take b.length

/-- The symbols to put in place of a nonterminal, or `none` where the input is in error. -/
def lookup (nt term : Nat) : Option (List Slot) :=
  let b := t.bucket nt term
  if b.valid then some (t.payload b) else none

/-- The note on a packed table that was made. -/
def packedNote : Note :=
  .debug ("encode: " ++ toString t.buckets.size ++ " buckets, " ++ toString t.validBuckets ++ " valid, " ++
    toString t.pool.length ++ " pool slots")

/-- Lays a table out with notes. -/
def report (g : Grammar) (table : Table) (l : Layout) : Report PackedTable := do
  Report.tell l.fingerprintNotes
  let t ← Report.of (pack g table l)
  Report.tell [t.packedNote]
  return t

end PackedTable

end Predictive
