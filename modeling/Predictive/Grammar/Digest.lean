import Predictive.Fingerprint
import Predictive.Grammar.Basic
import Predictive.Text.Utf8

/-!
# The fingerprint of a grammar

A grammar is laid out as a stream of bytes (`Grammar.digest`) in which every name and every count carries its
length, and the terminals and the nonterminals come in the order of their names. So the stream does not depend
on the numbering of symbols, only on the start symbol, the sets of names and the alternatives of each nonterminal
in order. Its hash is the fingerprint.
-/

namespace Predictive.Grammar

/-- A count as four bytes, the least significant first. -/
def countBytes (n : Nat) : List UInt8 := [n, n >>> 8, n >>> 16, n >>> 24].map UInt8.ofNat

/-- A text as the count of its bytes and the bytes. -/
def textBytes (s : String) : List UInt8 := countBytes (Text.utf8 s).length ++ Text.utf8 s

variable (g : Grammar)

/-- A symbol as a byte for its kind and its name: a bracketed name may be a terminal or a nonterminal. -/
def symbolBytes : Symbol → List UInt8
  | .terminal t => 0 :: textBytes (g.terminalName t)
  | .nonterminal n => 1 :: textBytes (g.nonterminalName n)

/-- A right-hand side as its length and its symbols. -/
def rhsBytes (rhs : List Symbol) : List UInt8 := countBytes rhs.length ++ rhs.flatMap g.symbolBytes

/-- The names of the terminals, sorted. -/
def sortedTerminals : List String := g.terminals.mergeSort (fun a b => decide (a ≤ b))

/-- The nonterminals, sorted by name. -/
def sortedNonterminals : List Nonterminal :=
  g.nonterminalIds.mergeSort fun a b => decide (g.nonterminalName a ≤ g.nonterminalName b)

/-- The stream of bytes that identifies the content of a grammar. -/
def digest : List UInt8 :=
  textBytes (g.nonterminalName g.start) ++
  countBytes g.terminals.length ++ g.sortedTerminals.flatMap textBytes ++
  g.sortedNonterminals.flatMap fun n =>
    textBytes (g.nonterminalName n) ++ (g.productionsOf n).flatMap fun (_, p) => g.rhsBytes p.rhs

/-- The content hash of a grammar. -/
def fingerprint : Fingerprint := Fingerprint.ofBytes g.digest

end Predictive.Grammar
