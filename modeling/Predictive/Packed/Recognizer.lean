import Predictive.Packed.Basic
import Predictive.Table.Recognizer

/-!
# Recognising words with packed tables

The parser of a packed table is the one of a prediction table, with all symbols given by their positions in the
layout. A word is given by the display names of its terminals.
-/

namespace Predictive.PackedTable

variable (t : PackedTable)

/-- The positions of terminals by display name; `none` if one is unknown. -/
def positions? (word : List String) : Option (List Nat) := word.mapM t.symbols.terminal?

/-- The state before a word, for the display name of the start symbol. -/
def initial? (start : String) (word : List String) : Option ParserState := do
  let eof ← t.symbols.terminal? endMarker
  let start ← t.symbols.nonterminal? start
  return ParserState.initial start eof (← t.positions? word)

/-- The position of the end marker. -/
def eof : Nat := (t.symbols.terminal? endMarker).getD 0

/-- The parser of a packed table halts on a word; a word with an unknown terminal is rejected at once. -/
def Halts (start : String) (word : List String) : Prop :=
  ∀ s, t.initial? start word = some s → s.Halts t.lookup t.eof

/-- The parser of a packed table accepts a word. -/
def Accepts (start : String) (word : List String) : Prop :=
  ∃ s, t.initial? start word = some s ∧ s.Accepts t.lookup t.eof

end Predictive.PackedTable
