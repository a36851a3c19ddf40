import Predictive.Proofs.Packed.CLiteral

/-!
# Tokens of C

A scanner for the part of C that tables are emitted in. It reads a text character by character: blanks and comments
separate tokens, words, numbers and marks are read as far as they go, and a line that starts with `#` is a directive.
What it has no rule for is refused: characters, octal numbers, prefixes of string literals and lines that are continued
after a backslash.

The scanner goes on where it stopped (`scan_append`), so a text is scanned part by part. The parts that depend on the
table are names (`scan_name`), numbers (`scan_number`) and string literals (`scan_literal`).
-/

namespace Predictive.CText

/-- A token. A string literal is kept as it is spelled between its quotes. -/
inductive Token where
  | word (name : String)
  | number (value : Nat)
  | text (spelling : String)
  | mark (spelling : String)
  | directive (line : String)
deriving DecidableEq, Inhabited

/-- Where the scanner is, with what it has read of a token, in reverse. -/
inductive Mode where
  | lineStart
  | plain
  | word (read : List Char)
  | number (value : Nat)
  | text (read : List Char)
  | escape (read : List Char)
  | mark (read : List Char)
  | lineComment
  | comment
  | star
  | directive (read : List Char)
deriving DecidableEq, Inhabited

namespace Mode

def marks : List Char := [
  '(', ')', '[', ']', '\x7b', '\x7d', ',', ';', ':', '?', '.', '=', '+', '-', '*', '/', '%', '&', '|', '^',
  '!', '~', '<', '>']

/-- The marks of more than one character. Each is a mark already without its last one. -/
def longMarks : List (List Char) := [
  ['-', '>'], ['+', '+'], ['-', '-'], ['<', '<'], ['>', '>'], ['<', '='], ['>', '='], ['=', '='], ['!', '='],
  ['&', '&'], ['|', '|'], ['*', '='], ['/', '='], ['%', '='], ['+', '='], ['-', '='], ['&', '='], ['^', '='],
  ['|', '='], ['<', '<', '='], ['>', '>', '=']]

def digit (c : Char) : Nat := c.toNat - '0'.toNat

/-- What a character outside of tokens begins. -/
def begin (c : Char) : Option Mode :=
  if c = ' ' ∨ c = '\t' then some plain
  else if c = '\n' then some lineStart
  else if isIdentifierStart c then some (word [c])
  else if c.isDigit then some (number (digit c))
  else if c = '"' then some (text [])
  else if c ∈ marks then some (mark [c])
  else none

/-- The text of what was read. -/
def spelled (read : List Char) : String := String.ofList read.reverse

/-- Reads a character. Yields the tokens that it ends. -/
def step (m : Mode) (c : Char) : Option (List Token × Mode) :=
  match m with
  | lineStart =>
    if c = '#' then some ([], directive [])
    else if c = ' ' ∨ c = '\t' then some ([], lineStart)
    else (begin c).map fun m => ([], m)
  | plain => (begin c).map fun m => ([], m)
  | word read =>
    if isIdentifierPart c then some ([], word (c :: read))
    else if c = '"' then none
    else (begin c).map fun m => ([.word (spelled read)], m)
  | number n =>
    if c.isDigit then
      -- after a zero the number would be octal
      if n = 0 then none else some ([], number (10 * n + digit c))
    else if isIdentifierPart c ∨ c = '.' then none
    else (begin c).map fun m => ([.number n], m)
  | text read =>
    if c = '"' then some ([.text (spelled read)], plain)
    else if c = '\n' then none
    else if c = '\\' then some ([], escape read)
    else some ([], text (c :: read))
  | escape read => if c = '\n' then none else some ([], text (c :: '\\' :: read))
  | mark read =>
    if read = ['/'] ∧ c = '/' then some ([], lineComment)
    else if read = ['/'] ∧ c = '*' then some ([], comment)
    else if (c :: read).reverse ∈ longMarks then some ([], mark (c :: read))
    else (begin c).map fun m => ([.mark (spelled read)], m)
  | lineComment =>
    if c = '\n' then some ([], lineStart) else if c = '\\' then none else some ([], lineComment)
  | comment => some ([], if c = '*' then star else comment)
  | star => some ([], if c = '/' then plain else if c = '*' then star else comment)
  | directive read =>
    if c = '\n' then
      if read.head? = some '\\' then none else some ([.directive (spelled read)], lineStart)
    else some ([], directive (c :: read))

end Mode

open Mode (spelled)

/-- Reads characters one after the other. -/
def scan (m : Mode) : List Char → Option (List Token × Mode)
  | [] => some ([], m)
  | c :: cs => do
    let (ts, m) ← m.step c
    let (ts', m) ← scan m cs
    return (ts ++ ts', m)

/-- The tokens of a text of whole lines. -/
def tokens? (text : List Char) : Option (List Token) :=
  match scan .lineStart text with
  | some (ts, .lineStart) => some ts
  | _ => none

/-! ### Parts of a text -/

theorem scan_append {m m' : Mode} {u : List Char} {ts : List Token} (h : scan m u = some (ts, m')) (v : List Char) :
    scan m (u ++ v) = (scan m' v).map fun r => (ts ++ r.1, r.2) := by
  induction u generalizing m ts with
  | nil =>
    obtain ⟨rfl, rfl⟩ : [] = ts ∧ m = m' := by simpa [scan] using h
    cases hv : scan m v <;> simp [hv]
  | cons c u ih =>
    simp only [scan, Option.bind_eq_bind, Option.bind_eq_some_iff, Prod.exists, Option.pure_def,
      Option.some.injEq, Prod.mk.injEq] at h
    obtain ⟨first, next, hstep, rest, last, hrest, rfl, rfl⟩ := h
    simp only [List.cons_append, scan, hstep, ih hrest, Option.bind_eq_bind, Option.bind_some]
    cases scan last v <;> simp

/-- Two parts of a text that are scanned one after the other. -/
theorem scan_append_of {m m' m'' : Mode} {u v : List Char} {ts ts' : List Token} (hu : scan m u = some (ts, m'))
    (hv : scan m' v = some (ts', m'')) : scan m (u ++ v) = some (ts ++ ts', m'') := by
  rw [scan_append hu, hv, Option.map_some]

/-- The tokens of whole lines. -/
def Lexes (text : List Char) (ts : List Token) : Prop := scan .lineStart text = some (ts, .lineStart)

instance (text : List Char) (ts : List Token) : Decidable (Lexes text ts) :=
  inferInstanceAs (Decidable (scan .lineStart text = some (ts, .lineStart)))

theorem tokens?_eq_some {text : List Char} {ts : List Token} : tokens? text = some ts ↔ Lexes text ts := by
  unfold tokens? Lexes
  split <;> simp_all

namespace Lexes

theorem nil : Lexes [] [] := rfl

theorem append {u v : List Char} {ts ts' : List Token} (h : Lexes u ts) (h' : Lexes v ts') : Lexes (u ++ v) (ts ++ ts') :=
  scan_append_of h h'

theorem flatMap {α : Type} {text : α → List Char} {ts : α → List Token} (xs : List α)
    (h : ∀ x ∈ xs, Lexes (text x) (ts x)) : Lexes (xs.flatMap text) (xs.flatMap ts) := by
  induction xs with
  | nil => exact nil
  | cons x xs ih =>
    rw [List.flatMap_cons, List.flatMap_cons]
    exact (h x List.mem_cons_self).append (ih fun y hy => h y (List.mem_cons_of_mem x hy))

end Lexes

/-! ### Names -/

private theorem scan_name_more {cs : List Char} (h : cs.all isIdentifierPart = true) (read : List Char) :
    scan (.word read) cs = some ([], .word (cs.reverse ++ read)) := by
  induction cs generalizing read with
  | nil => rfl
  | cons c cs ih =>
    rw [List.all_cons, Bool.and_eq_true] at h
    simp [scan, Mode.step, h.1, ih h.2 (c :: read)]

private theorem isIdentifier_cons {name : String} (h : isIdentifier name = true) :
    ∃ c cs, name.toList = c :: cs ∧ isIdentifierStart c = true ∧ cs.all isIdentifierPart = true := by
  unfold isIdentifier at h
  split at h
  · simp at h
  · rename_i c cs hname
    rw [Bool.and_eq_true] at h
    exact ⟨c, cs, hname, h.1, h.2⟩

/-- A name that is read from where no token has begun. -/
theorem scan_name {name : String} (h : isIdentifier name = true) {m : Mode} (hm : m = .plain ∨ m = .lineStart) :
    scan m name.toList = some ([], .word name.toList.reverse) := by
  obtain ⟨c, cs, hname, hc, hcs⟩ := isIdentifier_cons h
  have hspace : c ≠ ' ' := by
    rintro rfl
    exact absurd hc (by decide)
  have htab : c ≠ '\t' := by
    rintro rfl
    exact absurd hc (by decide)
  have hline : c ≠ '\n' := by
    rintro rfl
    exact absurd hc (by decide)
  have hhash : c ≠ '#' := by
    rintro rfl
    exact absurd hc (by decide)
  have hbegin : Mode.begin c = some (.word [c]) := by simp [Mode.begin, hspace, htab, hline, hc]
  have hrest := scan_name_more hcs [c]
  rw [hname]
  rcases hm with rfl | rfl
  · simp [scan, Mode.step, hbegin, hrest]
  · simp [scan, Mode.step, hhash, hspace, htab, hbegin, hrest]

/-- A name between other parts of a text. What ends it is no part of a name. -/
theorem scan_name_between {name : String} (h : isIdentifier name = true) {m m' m'' : Mode} {u v : List Char}
    {ts ts' : List Token} (hu : scan m u = some (ts, m')) (hm : m' = .plain ∨ m' = .lineStart)
    (hv : ∀ read, scan (.word read) v = some (.word (spelled read) :: ts', m'')) :
    scan m (u ++ (name.toList ++ v)) = some (ts ++ Token.word name :: ts', m'') := by
  have hspelled : spelled name.toList.reverse = name := by simp [spelled]
  have hname := scan_append_of (scan_name h hm) (hv _)
  rw [hspelled, List.nil_append] at hname
  exact scan_append_of hu hname

/-! ### Numbers -/

private theorem digitChar_spec : ∀ d < 10, (Nat.digitChar d).isDigit = true ∧
    Mode.digit (Nat.digitChar d) = d ∧ isIdentifierStart (Nat.digitChar d) = false ∧
    Nat.digitChar d ≠ ' ' ∧ Nat.digitChar d ≠ '\t' ∧ Nat.digitChar d ≠ '\n' := by
  decide

theorem scan_number (n : Nat) : scan .plain (toString n).toList = some ([], .number n) := by
  rw [Nat.toString_eq_ofList_toDigits, String.toList_ofList]
  induction n using Nat.strongRecOn with
  | ind n ih =>
    by_cases h : n < 10
    · obtain ⟨hdigit, hvalue, hstart, hspace, htab, hline⟩ := digitChar_spec n h
      rw [Nat.toDigits_of_lt_base h]
      simp [scan, Mode.step, Mode.begin, hdigit, hvalue, hstart, hspace, htab, hline]
    · -- the last digit is read after those of `n / 10`, which is not zero
      have hmod : n % 10 < 10 := Nat.mod_lt n (by omega)
      have hlast : 10 * (n / 10) + n % 10 = n := by omega
      have hpos : n / 10 ≠ 0 := by omega
      obtain ⟨hdigit, hvalue, -, -, -, -⟩ := digitChar_spec (n % 10) hmod
      rw [Nat.toDigits_of_base_le (by omega) (by omega)]
      have hstep : scan (.number (n / 10)) [Nat.digitChar (n % 10)] = some ([], .number n) := by
        simp [scan, Mode.step, hdigit, hvalue, hpos, hlast]
      exact scan_append_of (ih (n / 10) (by omega)) hstep

/-- A number between other parts of a text. -/
theorem scan_number_between (n : Nat) {m m' : Mode} {u v : List Char} {ts ts' : List Token}
    (hu : scan m u = some (ts, .plain)) (hv : scan (.number n) v = some (.number n :: ts', m')) :
    scan m (u ++ ((toString n).toList ++ v)) = some (ts ++ Token.number n :: ts', m') :=
  scan_append_of hu (scan_append_of (scan_number n) hv)

/-- A number in square brackets begins right after the bracket. -/
theorem scan_number_bracket (n : Nat) {m : Mode} {v : List Char} {ts : List Token}
    (hv : scan (.number n) v = some (.number n :: ts, m)) :
    scan (.mark ['[']) ((toString n).toList ++ v) = some (.mark "[" :: .number n :: ts, m) := by
  have hbracket : ∀ c cs, scan (.mark ['[']) (c :: cs) =
      (scan .plain (c :: cs)).map fun r => (.mark "[" :: r.1, r.2) := by
    intro c cs
    have hstep : Mode.step (.mark ['[']) c = (Mode.begin c).map fun m => ([.mark "["], m) := by
      simp [Mode.step, Mode.longMarks, spelled]
    have hplain : Mode.step .plain c = (Mode.begin c).map fun m => ([], m) := rfl
    rw [scan, scan, hstep, hplain]
    cases Mode.begin c with
    | none => rfl
    | some next => cases hcs : scan next cs <;> simp [hcs]
  have hplain : scan .plain ((toString n).toList ++ v) = some (.number n :: ts, m) :=
    scan_append_of (scan_number n) hv
  cases hcs : (toString n).toList ++ v with
  | nil =>
    rw [hcs] at hplain
    simp [scan] at hplain
  | cons c cs => rw [hbracket, ← hcs, hplain, Option.map_some]

/-! ### String literals -/

/-- A character that a string literal goes on with. -/
def isPlain (c : Char) : Bool := c ≠ '"' && c ≠ '\n' && c ≠ '\\'

private theorem scan_text {cs : List Char} (h : cs.all isPlain = true) (read : List Char) :
    scan (.text read) cs = some ([], .text (cs.reverse ++ read)) := by
  induction cs generalizing read with
  | nil => rfl
  | cons c cs ih =>
    rw [List.all_cons, Bool.and_eq_true] at h
    obtain ⟨⟨hquote, hline⟩, hslash⟩ : (c ≠ '"' ∧ c ≠ '\n') ∧ c ≠ '\\' := by simpa [isPlain] using h.1
    simp [scan, Mode.step, hquote, hline, hslash, ih h.2 (c :: read)]

/-- One plain character, or a backslash, any character that does not end the line, and plain ones. -/
def isEscaped : List Char → Bool
  | [c] => isPlain c
  | '\\' :: c :: cs => c ≠ '\n' && cs.all isPlain
  | _ => false

private theorem isEscaped_escapeByte (b : UInt8) : isEscaped (escapeByte b) = true := by
  have hdigit : ∀ d < 8, isPlain (Nat.digitChar d) = true ∧ Nat.digitChar d ≠ '\n' := by decide
  rcases escapeByte_cases b with ⟨c, hb, hc, hquote, hslash, -⟩ | ⟨c, hb, hc, -⟩ | ⟨i, hi, j, hj, k, hk, hb, -⟩
  · rw [hb, isEscaped.eq_def]
    simp [isPlain, hquote, hslash, hc.ne_newline]
  · rw [hb]
    simp [isEscaped, hc.ne_newline]
  · rw [hb]
    simp [isEscaped, (hdigit i hi).2, (hdigit j hj).1, (hdigit k hk).1]

private theorem scan_isEscaped {cs : List Char} (h : isEscaped cs = true) (read : List Char) :
    scan (.text read) cs = some ([], .text (cs.reverse ++ read)) := by
  unfold isEscaped at h
  split at h
  · rename_i c
    exact scan_text (by simpa using h) read
  · rename_i c cs
    rw [Bool.and_eq_true, decide_eq_true_eq] at h
    simp [scan, Mode.step, h.1, scan_text h.2 (c :: '\\' :: read)]
  · simp at h

/-- The inside of a string literal stays inside. -/
private theorem scan_escaped (bytes : List UInt8) (read : List Char) :
    scan (.text read) (bytes.flatMap escapeByte) = some ([], .text ((bytes.flatMap escapeByte).reverse ++ read)) := by
  induction bytes generalizing read with
  | nil => rfl
  | cons b bytes ih =>
    have hbyte := scan_isEscaped (isEscaped_escapeByte b) read
    rw [List.flatMap_cons, scan_append_of hbyte (ih _)]
    simp

/-- The spelling of a string literal. -/
def spelling (s : String) : String := String.ofList ((Text.utf8 s).flatMap escapeByte)

theorem scan_literal (s : String) : scan .plain (literal s).toList = some ([.text (spelling s)], .plain) := by
  have hinside := scan_escaped (Text.utf8 s) []
  rw [List.append_nil] at hinside
  have hend : scan (.text ((Text.utf8 s).flatMap escapeByte).reverse) ['"'] = some ([.text (spelling s)], .plain) := by
    simp [scan, Mode.step, spelled, spelling]
  have hquote : Mode.begin '"' = some (.text []) := rfl
  rw [toList_literal, scan, Mode.step, hquote]
  simp only [Option.map_some, Option.bind_eq_bind, Option.bind_some, scan_append_of hinside hend]
  rfl

theorem not_mem_literal (s : String) : '\n' ∉ (literal s).toList :=
  fun hmem => (printable_of_mem_literal hmem).ne_newline rfl

/-! ### Directives -/

private theorem scan_directive {line : List Char} (h : '\n' ∉ line) (read : List Char) :
    scan (.directive read) line = some ([], .directive (line.reverse ++ read)) := by
  induction line generalizing read with
  | nil => rfl
  | cons c line ih =>
    rw [List.mem_cons, not_or] at h
    simp [scan, Mode.step, Ne.symm h.1, ih h.2 (c :: read)]

theorem lexes_directive {line : List Char} (h : '\n' ∉ line) (hend : line.getLast? ≠ some '\\') :
    Lexes ('#' :: (line ++ ['\n'])) [.directive (String.ofList line)] := by
  have hline := scan_directive h []
  rw [List.append_nil] at hline
  have hstep : scan (.directive line.reverse) ['\n'] = some ([.directive (String.ofList line)], .lineStart) := by
    simp [scan, Mode.step, spelled, hend]
  rw [Lexes, scan, Mode.step, if_pos rfl]
  simp only [Option.bind_eq_bind, Option.bind_some, scan_append_of hline hstep]
  rfl

end Predictive.CText
