import Predictive.Table.Basic

/-!
# Recognising words

A predictive parser keeps a stack of symbols and the rest of its input, which ends in the end marker. A terminal on
top of the stack must be the next one of the input. A nonterminal on top is replaced by what the table predicts for
it and the next terminal. The word is accepted when the end marker on the stack meets the last place of the input.

The machine takes any prediction function, so that prediction tables and packed tables drive the same one.
-/

namespace Predictive

/-- What a parser has on its stack, the top first, and what it has still to read. -/
structure ParserState where
  stack : List Symbol
  input : List Terminal
deriving DecidableEq, Inhabited

/-- The end of a step: another state, or a verdict on the word. -/
inductive ParserStep where
  | more (s : ParserState)
  | verdict (accepted : Bool)
deriving DecidableEq, Inhabited

namespace ParserState

/-- What to put in place of a nonterminal when a terminal comes next; `none` where the input is in error. -/
abbrev Predictor := Nonterminal → Terminal → Option (List Symbol)

/-- The state before a word: the start symbol above the end marker. -/
def initial (start : Nonterminal) (eof : Terminal) (word : List Terminal) : ParserState :=
  ⟨[.nonterminal start, .terminal eof], word ++ [eof]⟩

/-- One step of the parser. -/
def step (predict : Predictor) (eof : Terminal) : ParserState → ParserStep
  | ⟨.terminal x :: stack, look :: rest⟩ =>
    if x ≠ look then .verdict false
    else if x = eof then .verdict rest.isEmpty
    else .more ⟨stack, rest⟩
  | ⟨.nonterminal n :: stack, look :: rest⟩ =>
    match predict n look with
    | some symbols => .more ⟨symbols ++ stack, look :: rest⟩
    | none => .verdict false
  | _ => .verdict false

/-- The verdict, if it comes within a number of steps. -/
def run (predict : Predictor) (eof : Terminal) : Nat → ParserState → Option Bool
  | 0, _ => none
  | n + 1, s =>
    match s.step predict eof with
    | .more s => run predict eof n s
    | .verdict accepted => some accepted

/-- The parser comes to a verdict. -/
def Halts (predict : Predictor) (eof : Terminal) (s : ParserState) : Prop :=
  ∃ n accepted, s.run predict eof n = some accepted

/-- The parser accepts. -/
def Accepts (predict : Predictor) (eof : Terminal) (s : ParserState) : Prop :=
  ∃ n, s.run predict eof n = some true

end ParserState

/-- What a table predicts, as symbols. -/
def Table.predictor (table : Table) (g : Grammar) : ParserState.Predictor := fun n t =>
  (table.get? n t).map (·.payload g)

/-- The parser of a table halts on a word. -/
def Table.Halts (table : Table) (g : Grammar) (word : List Terminal) : Prop :=
  (ParserState.initial g.start g.eof word).Halts (table.predictor g) g.eof

/-- The parser of a table accepts a word. -/
def Table.Accepts (table : Table) (g : Grammar) (word : List Terminal) : Prop :=
  (ParserState.initial g.start g.eof word).Accepts (table.predictor g) g.eof

end Predictive
