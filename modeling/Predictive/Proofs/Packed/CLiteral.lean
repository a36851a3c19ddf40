import Predictive.Packed.CText
import Predictive.Proofs.Text.Utf8

/-!
# String literals of C

What a string literal stands for is read from what is between its quotes (`Reading.read?`). A character stands for its
bytes in UTF-8. A backslash begins an escape: of one character, which is a quote, a backslash, `n` or `t`, or of octal
digits, which are read as far as they go, three at most. Other escapes are refused, and so are escapes beyond a byte.
Trigraphs are not replaced.

A byte is written in one of three ways (`escapeByte_cases`), and is read back before anything that follows it
(`read?_escaped`): an escape of octal digits is always written with three of them, so no digit behind it is taken for
its own. A text is written in printable ASCII and no quote in it ends the literal (`literalBody_escaped`). So the
literal stands for exactly the bytes of the text, and texts with the same literal are the same
(`literal_stands_for_bytes`).
-/

namespace Predictive.CText

/-! ### Reading -/

/-- Where a reader is between the quotes. -/
inductive Reading where
  | plain
  | escape
  /-- An escape of octal digits: its value so far, and how many digits it may still take. -/
  | octal (value more : Nat)
deriving DecidableEq, Inhabited

namespace Reading

def octalDigit? (c : Char) : Option Nat := if '0' ≤ c ∧ c ≤ '7' then some (c.toNat - '0'.toNat) else none

/-- The byte of an escape of one character. -/
def simple? : Char → Option UInt8
  | '"' => some 0x22
  | '\\' => some 0x5C
  | 'n' => some 0x0A
  | 't' => some 0x09
  | _ => none

/-- The byte of an escape of octal digits. -/
def byte? (value : Nat) : Option UInt8 := if value < 256 then some (UInt8.ofNat value) else none

/-- What a character outside of escapes stands for. -/
def begin (c : Char) : Option (List UInt8 × Reading) :=
  if c = '\\' then some ([], escape)
  else if c = '"' ∨ c = '\n' then none
  else some (String.utf8EncodeChar c, plain)

/-- Reads a character. Yields the bytes that are known with it. -/
def step (r : Reading) (c : Char) : Option (List UInt8 × Reading) :=
  match r, octalDigit? c with
  | plain, _ => begin c
  | escape, some d => some ([], octal d 2)
  | escape, none => (simple? c).map fun b => ([b], plain)
  | octal n 1, some d => (byte? (8 * n + d)).map fun b => ([b], plain)
  | octal n more, some d => some ([], octal (8 * n + d) (more - 1))
  | octal n _, none => do
    let b ← byte? n
    let (bytes, r) ← begin c
    return (b :: bytes, r)

/-- What is known only at the end. -/
def finish : Reading → Option (List UInt8)
  | plain => some []
  | escape => none
  | octal n _ => (byte? n).map fun b => [b]

/-- The bytes that characters stand for. -/
def read? (r : Reading) : List Char → Option (List UInt8)
  | [] => r.finish
  | c :: cs => do
    let (bytes, r) ← r.step c
    let bytes' ← read? r cs
    return bytes ++ bytes'

end Reading

open Reading (read?)

/-! ### Escaped bytes -/

/-- A character of ASCII that is no control character. -/
def IsPrintable (c : Char) : Prop := 0x20 ≤ c.toNat ∧ c.toNat ≤ 0x7E

instance : DecidablePred IsPrintable := fun c => inferInstanceAs (Decidable (0x20 ≤ c.toNat ∧ c.toNat ≤ 0x7E))

theorem IsPrintable.ne_newline {c : Char} (h : IsPrintable c) : c ≠ '\n' := by
  rintro rfl
  exact absurd h (by decide)

private theorem printable_byte {b : UInt8} (hquote : b ≠ 0x22) (hslash : b ≠ 0x5C) (h : 0x20 ≤ b ∧ b ≤ 0x7E) :
    ∃ c, [Char.ofNat b.toNat] = [c] ∧ IsPrintable c ∧ c ≠ '"' ∧ c ≠ '\\' ∧ String.utf8EncodeChar c = [b] := by
  have hlt := b.toNat_lt
  have hvalid : b.toNat.isValidChar := Or.inl (by omega)
  have hc : (Char.ofNat b.toNat).toNat = b.toNat := by
    rw [Char.ofNat, dif_pos hvalid]
    rfl
  refine ⟨_, rfl, ?_⟩
  generalize Char.ofNat b.toNat = c at hc
  obtain ⟨hlow, hhigh⟩ : 0x20 ≤ b.toNat ∧ b.toNat ≤ 0x7E := h
  refine ⟨⟨by omega, by omega⟩, ?_, ?_, ?_⟩
  · rintro rfl
    exact hquote (UInt8.toNat_inj.mp hc.symm)
  · rintro rfl
    exact hslash (UInt8.toNat_inj.mp hc.symm)
  · rw [Text.utf8EncodeChar_of_lt (by omega), hc, UInt8.ofNat_toNat]

/-- A byte is written as the character that it is, as a backslash and one character, or as a backslash and three octal
digits. -/
theorem escapeByte_cases (b : UInt8) :
    (∃ c, escapeByte b = [c] ∧ IsPrintable c ∧ c ≠ '"' ∧ c ≠ '\\' ∧ String.utf8EncodeChar c = [b]) ∨
    (∃ c, escapeByte b = ['\\', c] ∧ IsPrintable c ∧ Reading.octalDigit? c = none ∧ Reading.simple? c = some b) ∨
    ∃ i < 8, ∃ j < 8, ∃ k < 8, escapeByte b = ['\\', Nat.digitChar i, Nat.digitChar j, Nat.digitChar k] ∧
      8 * (8 * i + j) + k = b.toNat := by
  unfold escapeByte
  split
  · rename_i hb
    exact Or.inr (Or.inl ⟨'"', rfl, by decide, rfl, hb ▸ rfl⟩)
  split
  · rename_i hb
    exact Or.inr (Or.inl ⟨'\\', rfl, by decide, rfl, hb ▸ rfl⟩)
  split
  · rename_i hb
    exact Or.inr (Or.inl ⟨'n', rfl, by decide, rfl, hb ▸ rfl⟩)
  split
  · rename_i hb
    exact Or.inr (Or.inl ⟨'t', rfl, by decide, rfl, hb ▸ rfl⟩)
  split
  · rename_i hquote hslash _ _ hrange
    exact Or.inl (printable_byte hquote hslash hrange)
  · refine Or.inr (Or.inr ⟨b.toNat / 8 / 8 % 8, Nat.mod_lt _ (by omega), b.toNat / 8 % 8, Nat.mod_lt _ (by omega),
      b.toNat % 8, Nat.mod_lt _ (by omega), by simp [octal], ?_⟩)
    have hlt := b.toNat_lt
    omega

private theorem digitChar_octal : ∀ d < 8, Reading.octalDigit? (Nat.digitChar d) = some d ∧
    IsPrintable (Nat.digitChar d) ∧ Nat.digitChar d ≠ '"' ∧ Nat.digitChar d ≠ '\\' := by
  decide

private theorem read?_cons {r r' : Reading} {c : Char} {bytes : List UInt8} (h : r.step c = some (bytes, r'))
    (cs : List Char) : read? r (c :: cs) = (read? r' cs).map (bytes ++ ·) := by
  rw [read?, h]
  cases hcs : read? r' cs <;> simp [hcs]

private theorem read?_cons_nil {r r' : Reading} {c : Char} (h : r.step c = some ([], r')) (cs : List Char) :
    read? r (c :: cs) = read? r' cs := by
  rw [read?_cons h]
  cases read? r' cs <;> rfl

/-- An escaped byte is read before what follows it, whatever that is. -/
private theorem read?_escapeByte (b : UInt8) (rest : List Char) :
    read? .plain (escapeByte b ++ rest) = (read? .plain rest).map ([b] ++ ·) := by
  have hslash : Reading.step .plain '\\' = some ([], .escape) := rfl
  rcases escapeByte_cases b with ⟨c, hb, hprintable, hquote, hplain, hbytes⟩ | ⟨c, hb, -, hdigit, hsimple⟩ |
    ⟨i, hi, j, hj, k, hk, hb, hvalue⟩
  · have hc : Reading.step .plain c = some ([b], .plain) := by
      simp [Reading.step, Reading.begin, hplain, hquote, hprintable.ne_newline, hbytes]
    rw [hb, List.singleton_append, read?_cons hc]
  · have hc : Reading.step .escape c = some ([b], .plain) := by simp [Reading.step, hdigit, hsimple]
    rw [hb, List.cons_append, List.singleton_append, read?_cons_nil hslash, read?_cons hc]
  · have hbyte : Reading.byte? (8 * (8 * i + j) + k) = some b := by
      rw [hvalue, Reading.byte?, if_pos b.toNat_lt, UInt8.ofNat_toNat]
    have hfirst : Reading.step .escape (Nat.digitChar i) = some ([], .octal i 2) := by
      simp [Reading.step, (digitChar_octal i hi).1]
    have hsecond : Reading.step (.octal i 2) (Nat.digitChar j) = some ([], .octal (8 * i + j) 1) := by
      simp [Reading.step, (digitChar_octal j hj).1]
    -- the third digit ends the escape, so no digit of `rest` is taken for it
    have hthird : Reading.step (.octal (8 * i + j) 1) (Nat.digitChar k) = some ([b], .plain) := by
      simp [Reading.step, (digitChar_octal k hk).1, hbyte]
    rw [hb, List.cons_append, List.cons_append, List.cons_append, List.singleton_append, read?_cons_nil hslash,
      read?_cons_nil hfirst, read?_cons_nil hsecond, read?_cons hthird]

theorem read?_escaped (bytes : List UInt8) (rest : List Char) :
    read? .plain (bytes.flatMap escapeByte ++ rest) = (read? .plain rest).map (bytes ++ ·) := by
  induction bytes with
  | nil => cases h : read? .plain rest <;> simp [h]
  | cons b bytes ih =>
    rw [List.flatMap_cons, List.append_assoc, read?_escapeByte, ih]
    cases read? .plain rest <;> simp

example : read? .plain ([0x01, 0x31].flatMap escapeByte ++ ['7']) = some [0x01, 0x31, 0x37] := by decide +kernel

theorem read?_escaped_end (bytes : List UInt8) : read? .plain (bytes.flatMap escapeByte) = some bytes := by
  have hread := read?_escaped bytes []
  rw [List.append_nil] at hread
  simp [hread, read?, Reading.finish]

/-! ### Quotes -/

/-- The number of backslashes at the end. -/
def slashesAtEnd (cs : List Char) : Nat := (cs.reverse.takeWhile (· = '\\')).length

/-- What can stand between the quotes of a string literal: there are no control characters and none beyond ASCII, every
quote is escaped, as an odd number of backslashes stands before it, and the quote at the end is not. -/
structure LiteralBody (inside : List Char) : Prop where
  printable : ∀ c ∈ inside, IsPrintable c
  quote_escaped : ∀ u v, inside = u ++ '"' :: v → slashesAtEnd u % 2 = 1
  end_open : slashesAtEnd inside % 2 = 0

private theorem slashesAtEnd_concat (cs : List Char) (c : Char) :
    slashesAtEnd (cs ++ [c]) = if c = '\\' then slashesAtEnd cs + 1 else 0 := by
  by_cases hc : c = '\\' <;> simp [slashesAtEnd, hc]

private theorem slashesAtEnd_escapeByte (b : UInt8) {before : List Char} (h : slashesAtEnd before % 2 = 0) :
    slashesAtEnd (before ++ escapeByte b) % 2 = 0 := by
  rcases escapeByte_cases b with ⟨c, hb, -, -, hc, -⟩ | ⟨c, hb, -, -, -⟩ | ⟨i, -, j, -, k, hk, hb, -⟩
  · rw [hb, slashesAtEnd_concat, if_neg hc]
  · have hsplit : before ++ ['\\', c] = (before ++ ['\\']) ++ [c] := by simp
    rw [hb, hsplit, slashesAtEnd_concat, slashesAtEnd_concat, if_pos rfl]
    split <;> omega
  · have hsplit : before ++ ['\\', Nat.digitChar i, Nat.digitChar j, Nat.digitChar k] =
        (before ++ ['\\', Nat.digitChar i, Nat.digitChar j]) ++ [Nat.digitChar k] := by simp
    rw [hb, hsplit, slashesAtEnd_concat, if_neg (digitChar_octal k hk).2.2.2]

private theorem slashesAtEnd_escaped (bytes : List UInt8) {before : List Char} (h : slashesAtEnd before % 2 = 0) :
    slashesAtEnd (before ++ bytes.flatMap escapeByte) % 2 = 0 := by
  induction bytes generalizing before with
  | nil => simpa using h
  | cons b bytes ih =>
    rw [List.flatMap_cons, ← List.append_assoc]
    exact ih (slashesAtEnd_escapeByte b h)

/-- A quote in an escaped byte stands right behind its backslash. -/
private theorem eq_of_quote_in_escapeByte {b : UInt8} {u v : List Char} (h : escapeByte b = u ++ '"' :: v) :
    u = ['\\'] := by
  have hmem : '"' ∈ escapeByte b := by simp [h]
  rcases escapeByte_cases b with ⟨c, hb, -, hquote, -⟩ | ⟨c, hb, -⟩ | ⟨i, hi, j, hj, k, hk, hb, -⟩
  · rw [hb, List.mem_singleton] at hmem
    exact absurd hmem.symm hquote
  · rw [hb] at h
    cases u with
    | nil => simp at h
    | cons a u =>
      obtain ⟨rfl, hrest⟩ := List.cons.inj h
      cases u with
      | nil => rfl
      | cons a u => simp at hrest
  · have hi' := (digitChar_octal i hi).2.2.1
    have hj' := (digitChar_octal j hj).2.2.1
    have hk' := (digitChar_octal k hk).2.2.1
    simp [hb, hi'.symm, hj'.symm, hk'.symm] at hmem

private theorem quote_escaped_escaped (bytes : List UInt8) {before : List Char} (h : slashesAtEnd before % 2 = 0)
    {u v : List Char} (heq : bytes.flatMap escapeByte = u ++ '"' :: v) : slashesAtEnd (before ++ u) % 2 = 1 := by
  induction bytes generalizing before u with
  | nil => simp at heq
  | cons b bytes ih =>
    rw [List.flatMap_cons, List.append_eq_append_iff] at heq
    -- the quote is behind what is written for `b`, right after it or in it
    rcases heq with ⟨w, rfl, hrest⟩ | ⟨w, hbyte, hrest⟩
    · rw [← List.append_assoc]
      exact ih (slashesAtEnd_escapeByte b h) hrest
    · cases w with
      | nil =>
        rw [List.append_nil] at hbyte
        rw [← hbyte]
        have hnext := ih (slashesAtEnd_escapeByte b h) (u := []) hrest.symm
        rwa [List.append_nil] at hnext
      | cons c w =>
        obtain ⟨rfl, -⟩ := List.cons.inj hrest
        rw [eq_of_quote_in_escapeByte hbyte, slashesAtEnd_concat, if_pos rfl]
        omega

private theorem printable_of_mem_escapeByte {b : UInt8} {c : Char} (hc : c ∈ escapeByte b) : IsPrintable c := by
  have hslash : IsPrintable '\\' := by decide
  rcases escapeByte_cases b with ⟨c', hb, hprintable, -⟩ | ⟨c', hb, hprintable, -⟩ | ⟨i, hi, j, hj, k, hk, hb, -⟩
  · rw [hb, List.mem_singleton] at hc
    exact hc ▸ hprintable
  · simp only [hb, List.mem_cons, List.not_mem_nil, or_false] at hc
    rcases hc with rfl | rfl
    · exact hslash
    · exact hprintable
  · simp only [hb, List.mem_cons, List.not_mem_nil, or_false] at hc
    rcases hc with rfl | rfl | rfl | rfl
    · exact hslash
    · exact (digitChar_octal i hi).2.1
    · exact (digitChar_octal j hj).2.1
    · exact (digitChar_octal k hk).2.1

private theorem slashesAtEnd_nil : slashesAtEnd [] % 2 = 0 := rfl

theorem literalBody_escaped (bytes : List UInt8) : LiteralBody (bytes.flatMap escapeByte) where
  printable := by
    intro c hc
    obtain ⟨b, -, hb⟩ := List.mem_flatMap.mp hc
    exact printable_of_mem_escapeByte hb
  quote_escaped := fun _ _ h => quote_escaped_escaped bytes slashesAtEnd_nil h
  end_open := slashesAtEnd_escaped bytes slashesAtEnd_nil

/-! ### Literals -/

theorem toList_literal (s : String) :
    (literal s).toList = '"' :: ((Text.utf8 s).flatMap escapeByte ++ ['"']) := by simp [literal]

theorem printable_of_mem_literal {s : String} {c : Char} (hc : c ∈ (literal s).toList) : IsPrintable c := by
  rw [toList_literal, List.mem_cons, List.mem_append, List.mem_singleton] at hc
  rcases hc with rfl | hc | rfl
  · decide
  · exact (literalBody_escaped _).printable c hc
  · decide

private theorem literal_inj {s t : String} (h : literal s = literal t) : s = t := by
  have hinside := congrArg String.toList h
  rw [toList_literal, toList_literal, List.cons.injEq] at hinside
  have hescaped := List.append_cancel_right hinside.2
  have hbytes : some (Text.utf8 s) = some (Text.utf8 t) := by
    rw [← read?_escaped_end, ← read?_escaped_end, hescaped]
  exact Text.utf8_inj (Option.some.inj hbytes)

/-- The literal of a text is well formed, and what is between its quotes stands for exactly the bytes of the text in
UTF-8. No escape takes anything of what follows it. So texts with the same literal are the same. -/
theorem literal_stands_for_bytes (s t : String) :
    (∃ inside, (literal s).toList = '"' :: (inside ++ ['"']) ∧ LiteralBody inside ∧
      read? .plain inside = some (Text.utf8 s)) ∧
    (∀ (bytes : List UInt8) (rest : List Char),
      read? .plain (bytes.flatMap escapeByte ++ rest) = (read? .plain rest).map (bytes ++ ·)) ∧
    (literal s = literal t ↔ s = t) :=
  ⟨⟨_, toList_literal s, literalBody_escaped _, read?_escaped_end _⟩, read?_escaped, literal_inj, congrArg literal⟩

end Predictive.CText
