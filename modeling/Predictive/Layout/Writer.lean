import Predictive.Layout.Basic

/-!
# Writing layouts

A layout is written as a JSON object over several lines, two blanks for each level. The fingerprint is left out
where there is none.
-/

namespace Predictive

namespace Json

/-- A character as it stands in a JSON string: quotes, backslashes and controls are escaped. -/
def escapeChar (c : Char) : List Char :=
  if c = '"' then ['\\', '"']
  else if c = '\\' then ['\\', '\\']
  else if c = '\x08' then ['\\', 'b']
  else if c = '\x0c' then ['\\', 'f']
  else if c = '\n' then ['\\', 'n']
  else if c = '\r' then ['\\', 'r']
  else if c = '\t' then ['\\', 't']
  else if c.toNat < 0x20 then ['\\', 'u'] ++ Numeral.hex 4 c.toNat
  else [c]

/-- A text as a JSON string. -/
def quote (s : String) : String := "\"" ++ String.ofList (s.toList.flatMap escapeChar) ++ "\""

/-- A list of texts as a JSON list inside an object. -/
def quoteList : List String → String
  | [] => "[]"
  | names => "[\n" ++ ",\n".intercalate (names.map fun s => "    " ++ quote s) ++ "\n  ]"

end Json

namespace Layout

/-- The members of a layout's object: names and written values. -/
def members (l : Layout) : List (String × String) :=
  [("ts", Json.quoteList l.terminals), ("nts", Json.quoteList l.nonterminals),
   ("mod", toString l.modulus.toNat), ("shift", toString l.shift.toNat),
   ("nt-main", if l.major = .nonterminal then "true" else "false")] ++
  match l.fingerprint with
  | some f => [("fingerprint", Json.quote f.text)]
  | none => []

/-- A layout as JSON text. -/
def toJson (l : Layout) : String :=
  "\x7b\n" ++ ",\n".intercalate (l.members.map fun (name, value) => "  \"" ++ name ++ "\": " ++ value) ++ "\n\x7d"

end Layout

end Predictive
