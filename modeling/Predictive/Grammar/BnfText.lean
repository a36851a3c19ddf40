import Predictive.Grammar.Bnf

/-!
# Reading BNF text

A text is cut into tokens (`Bnf.tokens?`) and the tokens into rules (`Bnf.rules?`). Names are written `<name>`
and literals in single or double quotes, both raw and without escapes. A rule is a name, `::=`, alternatives
separated by `|`, and an optional `;`. A name that `::=` follows begins the next rule.
-/

namespace Predictive.Bnf

/-- A token of BNF text. -/
inductive Token where
  | name (text : String)
  | literal (text : String)
  | defines
  | bar
  | semicolon
deriving DecidableEq, Inhabited

/-- Where the reader stands in the text: between tokens, or inside a name or literal that `stop` ends, with the
characters read so far in reverse. -/
inductive Mode where
  | between
  | inside (stop : Char) (read : List Char)

/-- The token that ends with `stop`. -/
def closing (stop : Char) (read : List Char) : Token :=
  let text := String.ofList read.reverse
  if stop = '>' then .name text else .literal text

def isBlank (c : Char) : Bool := c = ' ' || c = '\t' || c = '\r' || c = '\n'

/-- Cuts a text into tokens; fails on a stray character or an unclosed name or literal. -/
def scan : Mode → List Char → Option (List Token)
  | .between, [] => some []
  | .between, ':' :: ':' :: '=' :: rest => (scan .between rest).map (.defines :: ·)
  | .between, c :: rest =>
    if isBlank c then scan .between rest
    else if c = '<' then scan (.inside '>' []) rest
    else if c = '"' then scan (.inside '"' []) rest
    else if c = '\'' then scan (.inside '\'' []) rest
    else if c = '|' then (scan .between rest).map (.bar :: ·)
    else if c = ';' then (scan .between rest).map (.semicolon :: ·)
    else none
  | .inside _ _, [] => none
  | .inside stop read, c :: rest =>
    if c = stop then (scan .between rest).map (closing stop read :: ·)
    else scan (.inside stop (c :: read)) rest

def tokens? (text : String) : Option (List Token) := scan .between text.toList

/-- Reads the rest of a rule for `lhs` and the rules after it. `done` holds the alternatives that are complete
and `current` the one being read; no alternative may be empty. -/
def body (lhs : String) (done : List (List Term)) (current : List Term) : List Token → Option (List Rule)
  | [] => if current = [] then none else some [⟨lhs, done ++ [current]⟩]
  | .literal text :: rest => body lhs done (current ++ [.literal text]) rest
  | .name next :: .defines :: rest =>
    if current = [] then none else (body next [] [] rest).map (⟨lhs, done ++ [current]⟩ :: ·)
  | .name text :: rest => body lhs done (current ++ [.name text]) rest
  | .bar :: rest => if current = [] then none else body lhs (done ++ [current]) [] rest
  | [.semicolon] => if current = [] then none else some [⟨lhs, done ++ [current]⟩]
  | .semicolon :: .name next :: .defines :: rest =>
    if current = [] then none else (body next [] [] rest).map (⟨lhs, done ++ [current]⟩ :: ·)
  | _ => none

/-- Reads at least one rule and leaves nothing over. -/
def rules? : List Token → Option (List Rule)
  | .name lhs :: .defines :: rest => body lhs [] [] rest
  | _ => none

/-- The rules of a text, if it is well formed. -/
def read? : Reader := fun text => tokens? text >>= rules?

end Predictive.Bnf
