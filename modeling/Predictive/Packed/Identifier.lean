import Predictive.Error
import Predictive.Grammar.Basic
import Predictive.Text.Upper

/-!
# Identifiers for symbols

Every symbol of a packed table gets a name that can stand in an enumeration of the emitted code. Punctuation has
names of its own, the end marker is `EOF`, and everything else is put in upper case, without the brackets of a
bracketed name. The names of one kind of symbols must be identifiers and differ.
-/

namespace Predictive

/-- The names of punctuation. -/
def punctuation : List (String × String) := [
  ("(", "LPAREN"), (")", "RPAREN"), ("[", "LBRACKET"), ("]", "RBRACKET"), ("\x7b", "LBRACE"),
  ("\x7d", "RBRACE"), ("+", "PLUS"), ("-", "MINUS"), ("*", "ASTERISK"), ("/", "SLASH"), ("%", "PERCENT"),
  ("^", "CARET"), ("//", "DOUBLE_SLASH"), ("=", "EQUALS"), ("~=", "TILDE_EQUALS"), ("..", "DOUBLE_DOT"),
  ("...", "ELLIPSIS"), (".", "DOT"), ("#", "HASH"), (":", "COLON"), (";", "SEMICOLON"), ("<", "LT"),
  (">", "GT"), ("<=", "LTE"), (">=", "GTE"), ("==", "DOUBLE_EQUALS"), (",", "COMMA")]

/-- The text between brackets, if it is not empty. -/
def unbracketed? (display : String) : Option String :=
  match display.toList with
  | '<' :: rest =>
    match rest.reverse with
    | '>' :: c :: inner => some (String.ofList (c :: inner).reverse)
    | _ => none
  | _ => none

/-- The name of a symbol by its display text. -/
def identifier (display : String) : String :=
  if display = endMarker then "EOF"
  else
    match unbracketed? display with
    | some inner => Text.upper (inner.map fun c => if c = '-' then '_' else c)
    | none => (punctuation.lookup display).getD (Text.upper display)

/-- Whether a character may begin an identifier. -/
def isIdentifierStart (c : Char) : Bool := c.isAlpha || c = '_'

/-- Whether a character may stand in an identifier. -/
def isIdentifierPart (c : Char) : Bool := c.isAlphanum || c = '_'

/-- Whether a text is an identifier. -/
def isIdentifier (s : String) : Bool :=
  match s.toList with
  | [] => false
  | c :: rest => isIdentifierStart c && rest.all isIdentifierPart

/-- Names symbols in order, where `owners` holds the names that are taken and by whom. -/
def identifiersFrom (owners : List (String × String)) : List String → Except Error (List String)
  | [] => .ok []
  | display :: rest =>
    let name := identifier display
    if isIdentifier name then
      match owners.lookup name with
      | some first => .error (.duplicateName name first display)
      | none => (identifiersFrom ((name, display) :: owners) rest).map (name :: ·)
    else .error (.invalidName display name)

/-- The names of the symbols of one kind; fails on the first that is no identifier or taken already. -/
def identifiers (displays : List String) : Except Error (List String) := identifiersFrom [] displays

end Predictive
