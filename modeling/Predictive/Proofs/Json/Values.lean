import Mathlib.Tactic.SplitIfs
import Predictive.Layout.Reader
import Predictive.Layout.Writer
import Predictive.Proofs.Outcome
import Predictive.Proofs.Text.Utf8

/-!
# Reading written values

What is written as a JSON value is read back: strings with their escapes (`string_quote`), natural numbers
(`wordValue_toString`) and lists of strings (`stringList_quoteList`). The statements are about a value after a blank
and with more bytes behind it, so that the members of an object can be read one after the other.
-/

namespace Predictive.Json

/-! ### Strings -/

private theorem stringFrom_plain {b : UInt8} (hq : b ≠ byte '"') (hb : b ≠ byte '\\') (hc : ¬ b < 0x20)
    (read : List UInt8) (rest : Bytes) : stringFrom .plain read (b :: rest) = stringFrom .plain (b :: read) rest := by
  rw [stringFrom, if_neg hq, if_neg hb, if_neg hc]

private theorem stringFrom_plain_append {bytes : Bytes} (h : ∀ b ∈ bytes, b ≠ byte '"' ∧ b ≠ byte '\\' ∧ ¬ b < 0x20)
    (read : List UInt8) (rest : Bytes) :
    stringFrom .plain read (bytes ++ rest) = stringFrom .plain (bytes.reverse ++ read) rest := by
  induction bytes generalizing read with
  | nil => rfl
  | cons b bytes ih =>
    obtain ⟨hq, hb, hc⟩ := h b List.mem_cons_self
    rw [List.cons_append, stringFrom_plain hq hb hc, ih fun x hx => h x (List.mem_cons_of_mem b hx)]
    simp

/-- A character above the controls that is no quote and no backslash has no byte that is. -/
private theorem plain_of_mem_utf8EncodeChar {c : Char} (hq : c ≠ '"') (hb : c ≠ '\\') (hc : ¬ c.toNat < 0x20) :
    ∀ b ∈ String.utf8EncodeChar c, b ≠ byte '"' ∧ b ≠ byte '\\' ∧ ¬ b < 0x20 := by
  intro b hm
  by_cases hlt : c.toNat < 128
  · rw [Text.utf8EncodeChar_of_lt hlt, List.mem_singleton] at hm
    have hval : b.toNat = c.toNat := by
      rw [hm, UInt8.toNat_ofNat', Nat.mod_eq_of_lt (by omega)]
    refine ⟨?_, ?_, ?_⟩
    · rintro rfl
      exact hq (Char.toNat_inj.mp hval.symm)
    · rintro rfl
      exact hb (Char.toNat_inj.mp hval.symm)
    · rw [UInt8.lt_iff_toNat_lt, hval]
      exact hc
  · -- the bytes of other characters have the high bit
    have hle := Text.le_of_mem_utf8EncodeChar (Nat.le_of_not_lt hlt) hm
    refine ⟨?_, ?_, ?_⟩
    · rintro rfl
      exact absurd hle (by decide)
    · rintro rfl
      exact absurd hle (by decide)
    · rw [UInt8.lt_iff_toNat_lt]
      have : (0x20 : UInt8).toNat = 32 := rfl
      omega

private theorem stringFrom_simple {e b : UInt8} (hu : e ≠ byte 'u') (h : simpleEscape? e = some b)
    (read : List UInt8) (rest : Bytes) :
    stringFrom .plain read (byte '\\' :: e :: rest) = stringFrom .plain (b :: read) rest := by
  have hq : byte '\\' ≠ byte '"' := by decide
  rw [stringFrom, if_neg hq, if_pos rfl, stringFrom, if_neg hu, h]

private theorem hexNumber?_hex : ∀ n < 0x20, ((Numeral.hex 4 n).flatMap String.utf8EncodeChar).length = 4 ∧
    hexNumber? ((Numeral.hex 4 n).flatMap String.utf8EncodeChar) = some n := by
  decide

private theorem stringFrom_control {n : Nat} (h : n < 0x20) (read : List UInt8) (rest : Bytes) :
    stringFrom .plain read (byte '\\' :: byte 'u' :: ((Numeral.hex 4 n).flatMap String.utf8EncodeChar ++ rest)) =
      stringFrom .plain ((charBytes n).reverse ++ read) rest := by
  obtain ⟨hlength, hnumber⟩ := hexNumber?_hex n h
  have hq : byte '\\' ≠ byte '"' := by decide
  have hescaped : escaped none n = .ok (.char n) := by
    simp only [escaped]
    rw [if_neg (by omega), if_neg (by omega)]
  generalize (Numeral.hex 4 n).flatMap String.utf8EncodeChar = ds at hlength hnumber
  match ds with
  | [d₁, d₂, d₃, d₄] =>
    rw [stringFrom, if_neg hq, if_pos rfl, stringFrom, if_pos rfl]
    simp [stringFrom, hnumber, hescaped]

private theorem charBytes_toNat (c : Char) : charBytes c.toNat = String.utf8EncodeChar c := by
  have hs : c.toString = String.ofList [c] := by simp [Char.toString_eq_singleton]
  rw [charBytes, Char.ofNat_toNat, hs, Text.utf8_ofList]
  simp

/-- An escaped character is read as the character. -/
private theorem stringFrom_escapeChar (c : Char) (read : List UInt8) (rest : Bytes) :
    stringFrom .plain read ((escapeChar c).flatMap String.utf8EncodeChar ++ rest) =
      stringFrom .plain ((String.utf8EncodeChar c).reverse ++ read) rest := by
  unfold escapeChar
  -- seven characters have an escape of one letter, other controls are written by number
  split_ifs with hquote hback hb hf hn hr ht hcontrol
  · subst hquote
    exact stringFrom_simple (by decide) (by decide) read rest
  · subst hback
    exact stringFrom_simple (by decide) (by decide) read rest
  · subst hb
    exact stringFrom_simple (by decide) (by decide) read rest
  · subst hf
    exact stringFrom_simple (by decide) (by decide) read rest
  · subst hn
    exact stringFrom_simple (by decide) (by decide) read rest
  · subst hr
    exact stringFrom_simple (by decide) (by decide) read rest
  · subst ht
    exact stringFrom_simple (by decide) (by decide) read rest
  · rw [List.flatMap_append, ← charBytes_toNat c]
    exact stringFrom_control hcontrol read rest
  · have hplain := plain_of_mem_utf8EncodeChar hquote hback hcontrol
    simpa using stringFrom_plain_append hplain read rest

private theorem stringFrom_escaped (cs : List Char) (read : List UInt8) (rest : Bytes) :
    stringFrom .plain read ((cs.flatMap escapeChar).flatMap String.utf8EncodeChar ++ byte '"' :: rest) =
      .ok (read.reverse ++ cs.flatMap String.utf8EncodeChar, rest) := by
  induction cs generalizing read with
  | nil => simp [stringFrom]
  | cons c cs ih =>
    rw [List.flatMap_cons, List.flatMap_append, List.append_assoc, stringFrom_escapeChar, ih]
    simp

/-- The text between the quotes of a written string is read back. -/
theorem string_escaped (s : String) (rest : Bytes) :
    string (Text.utf8 (String.ofList (s.toList.flatMap escapeChar)) ++ byte '"' :: rest) = .ok (s, rest) := by
  rw [Text.utf8_ofList, string, stringFrom_escaped]
  simp only [bind, Except.bind, List.reverse_nil, List.nil_append, ← Text.utf8_eq_flatMap, Text.ofUtf8?_utf8]

/-- The bytes of a written string. -/
def quoted (s : String) : Bytes :=
  byte '"' :: (Text.utf8 (String.ofList (s.toList.flatMap escapeChar)) ++ [byte '"'])

theorem utf8_quote (s : String) : Text.utf8 (quote s) = quoted s := by
  have hquote : Text.utf8 "\"" = [byte '"'] := by decide
  rw [quote, Text.utf8_append, Text.utf8_append, hquote, quoted]
  rfl

theorem stringValue_blank (bytes : Bytes) : stringValue (byte ' ' :: bytes) = stringValue bytes := rfl

/-- A written string is read back. -/
theorem stringValue_quoted (s : String) (rest : Bytes) : stringValue (quoted s ++ rest) = .ok (s, rest) := by
  have hbytes : quoted s ++ rest =
      byte '"' :: (Text.utf8 (String.ofList (s.toList.flatMap escapeChar)) ++ byte '"' :: rest) := by simp [quoted]
  have hskip : skipBlank (byte '"' :: (Text.utf8 (String.ofList (s.toList.flatMap escapeChar)) ++ byte '"' :: rest)) =
      byte '"' :: (Text.utf8 (String.ofList (s.toList.flatMap escapeChar)) ++ byte '"' :: rest) := rfl
  rw [hbytes, stringValue, hskip]
  simp only [if_pos]
  exact string_escaped s rest

/-! ### Numbers -/

private def digitByte (d : Nat) : UInt8 := UInt8.ofNat (48 + d)

/-- The digits of a number as they are written: without a zero in front, and read as the number. -/
private structure Decimal (n : Nat) (ds : List Nat) : Prop where
  bytes : Text.utf8 (toString n) = ds.map digitByte
  lt : ∀ d ∈ ds, d < 10
  ne_nil : ds ≠ []
  zero : ∀ l, ds = 0 :: l → l = []
  value : appendDigits 0 ds = (n, ds.length)

private theorem utf8EncodeChar_digitChar : ∀ d < 10, String.utf8EncodeChar (Nat.digitChar d) = [digitByte d] := by
  decide

private theorem utf8_toString (n : Nat) :
    Text.utf8 (toString n) = (Nat.toDigits 10 n).flatMap String.utf8EncodeChar := by
  rw [Nat.toString_eq_ofList_toDigits, Text.utf8_ofList]

private theorem appendDigits_concat {m k d : Nat} {ds : List Nat} (h : appendDigits m ds = (k, ds.length))
    (hlt : k * 10 + d < UInt64.size) : appendDigits m (ds ++ [d]) = (k * 10 + d, ds.length + 1) := by
  induction ds generalizing m with
  | nil =>
    obtain ⟨rfl, -⟩ := Prod.mk.inj h
    simp [appendDigits, hlt]
  | cons e ds ih =>
    rw [appendDigits] at h
    split at h
    · rename_i hm
      obtain ⟨hk, hlength⟩ := Prod.mk.inj h
      have htail : appendDigits (m * 10 + e) ds = (k, ds.length) := Prod.ext hk (Nat.succ.inj hlength)
      rw [List.cons_append, appendDigits, if_pos hm, ih htail]
      rfl
    · simp at h

private theorem exists_decimal (n : Nat) (hn : n < UInt64.size) : ∃ ds, Decimal n ds := by
  induction n using Nat.strongRecOn with
  | ind n ih =>
    by_cases h : n < 10
    · refine ⟨[n], ?_, by simpa using h, by simp, by simp, ?_⟩
      · rw [utf8_toString, Nat.toDigits_of_lt_base h]
        simpa using utf8EncodeChar_digitChar n h
      · simp [appendDigits, hn]
    · obtain ⟨ds, hds⟩ := ih (n / 10) (by omega) (by omega)
      have hlast : n / 10 * 10 + n % 10 = n := by omega
      have hmod : n % 10 < 10 := Nat.mod_lt n (by omega)
      refine ⟨ds ++ [n % 10], ?_, ?_, by simp, ?_, ?_⟩
      · rw [utf8_toString, Nat.toDigits_of_base_le (by omega) (by omega), List.flatMap_append, ← utf8_toString,
          hds.bytes, List.map_append]
        simpa using utf8EncodeChar_digitChar (n % 10) hmod
      · simp only [List.mem_append, List.mem_singleton]
        rintro d (hd | rfl)
        · exact hds.lt d hd
        · exact hmod
      · -- a zero in front would be the only digit of `n / 10`
        intro l hl
        cases ds with
        | nil => exact absurd rfl hds.ne_nil
        | cons d ds =>
          obtain ⟨rfl, -⟩ := List.cons.inj hl
          obtain rfl := hds.zero ds rfl
          have hzero := (Prod.mk.inj hds.value).1
          simp at hzero
          omega
      · have hconcat := appendDigits_concat hds.value (hlast.symm ▸ hn)
        rw [hlast] at hconcat
        simpa using hconcat

private theorem digitByte_spec : ∀ d < 10, isDigit (digitByte d) = true ∧ digitValue (digitByte d) = d := by
  decide

private theorem splitDigits_decimal {ds : List Nat} (h : ∀ d ∈ ds, d < 10) {b : UInt8} (hb : isDigit b = false)
    (rest : Bytes) : splitDigits (ds.map digitByte ++ b :: rest) = (ds, b :: rest) := by
  have hall : ∀ x ∈ ds.map digitByte, isDigit x = true := by
    intro x hx
    obtain ⟨d, hd, rfl⟩ := List.mem_map.mp hx
    exact (digitByte_spec d (h d hd)).1
  have hvalues : (ds.map digitByte).map digitValue = ds := by
    rw [List.map_map]
    exact (List.map_congr_left fun d hd => (digitByte_spec d (h d hd)).2).trans (List.map_id' ds)
  rw [splitDigits, List.takeWhile_append_of_pos hall, List.dropWhile_append_of_pos hall]
  simp [hb, hvalues]

private theorem number_decimal {n : Nat} {ds : List Nat} (h : Decimal n ds) (rest : Bytes) :
    number false (ds.map digitByte ++ byte ',' :: rest) = .ok (.natural n, byte ',' :: rest) := by
  have hsplit := splitDigits_decimal h.lt (b := byte ',') (by decide) rest
  have hpoint : byte ',' ≠ byte '.' := by decide
  have hexponent : ¬ (byte ',' = byte 'e' ∨ byte ',' = byte 'E') := by decide
  have hplain : ∀ d l, ds = d :: l → ¬ (d = 0 ∧ l ≠ []) := by
    rintro d l hds ⟨rfl, hl⟩
    exact hl (h.zero l hds)
  have hvalue := h.value
  unfold number
  rw [hsplit]
  -- no digit, zero alone, zero in front of others, another digit alone or in front
  rcases ds with _ | ⟨_ | d, _ | ⟨e, ds⟩⟩
  · exact absurd rfl h.ne_nil
  · simp [hvalue, hpoint, hexponent]
  · exact absurd ⟨rfl, by simp⟩ (hplain 0 (e :: ds) rfl)
  · simp [hvalue, hpoint, hexponent]
  · simp [hvalue, hpoint, hexponent]

private theorem digitByte_first : ∀ d < 10, isBlank (digitByte d) = false ∧ digitByte d ≠ byte '-' := by
  decide

/-- A written number is read back, if a comma follows. -/
theorem wordValue_toString (n : UInt32) (rest : Bytes) :
    wordValue (byte ' ' :: (Text.utf8 (toString n.toNat) ++ byte ',' :: rest)) = .ok (n, byte ',' :: rest) := by
  have hn : n.toNat < UInt32.size := n.toNat_lt
  obtain ⟨ds, hds⟩ := exists_decimal n.toNat (Nat.lt_trans hn (by decide))
  have hnumber := number_decimal hds rest
  rw [hds.bytes]
  cases ds with
  | nil => exact absurd rfl hds.ne_nil
  | cons d ds =>
    have hd := hds.lt d List.mem_cons_self
    obtain ⟨hblank, hminus⟩ := digitByte_first d hd
    have hskip : skipBlank (byte ' ' :: ((d :: ds).map digitByte ++ byte ',' :: rest)) =
        (d :: ds).map digitByte ++ byte ',' :: rest := by
      have hspace : isBlank (byte ' ') = true := by decide
      simp [skipBlank, hspace, hblank]
    rw [wordValue, hskip]
    simp only [List.map_cons, List.cons_append] at hnumber ⊢
    simp [hminus, (digitByte_spec d hd).1, hnumber, bind, Except.bind, hn]

/-! ### Lists of strings -/

theorem utf8_intercalate (separator x : String) (xs : List String) :
    Text.utf8 (separator.intercalate (x :: xs)) =
      Text.utf8 x ++ xs.flatMap fun y => Text.utf8 separator ++ Text.utf8 y := by
  induction xs generalizing x with
  | nil => simp
  | cons y ys ih =>
    rw [String.intercalate_cons_cons, Text.utf8_append, Text.utf8_append, ih y]
    simp

/-- The bytes of a written string that follows another one in a list. -/
private def furtherItem (s : String) : Bytes := Text.utf8 ",\n    " ++ quoted s

private theorem utf8_quoteList_cons (s : String) (names : List String) : Text.utf8 (quoteList (s :: names)) =
    byte '[' :: (Text.utf8 "\n    " ++ quoted s ++ names.flatMap furtherItem ++ Text.utf8 "\n  ]") := by
  have hopen : Text.utf8 "[\n" = [byte '[', 10] := by decide
  have hindent : Text.utf8 "\n    " = 10 :: Text.utf8 "    " := by decide
  have hfurther : Text.utf8 ",\n    " = Text.utf8 ",\n" ++ Text.utf8 "    " := by decide
  have hitems : (names.map fun s => "    " ++ quote s).flatMap (fun y => Text.utf8 ",\n" ++ Text.utf8 y) =
      names.flatMap furtherItem := by
    rw [List.flatMap_map]
    have hitem : (fun s => Text.utf8 ",\n" ++ Text.utf8 ("    " ++ quote s)) = furtherItem := by
      funext s
      rw [Text.utf8_append, utf8_quote, furtherItem, hfurther, List.append_assoc]
    rw [hitem]
  simp only [quoteList, List.map_cons, Text.utf8_append, utf8_intercalate, utf8_quote, hitems, hopen, hindent]
  simp

private theorem nextElement_further (s : String) (rest : Bytes) :
    nextElement false (furtherItem s ++ rest) = .ok (some (quoted s ++ rest)) := by
  have hfurther : Text.utf8 ",\n    " = [byte ',', 10, 32, 32, 32, 32] := by decide
  rw [furtherItem, hfurther]
  rfl

private theorem stringsFrom_further (names : List String) (rest : Bytes) {fuel : Nat} (h : names.length < fuel) :
    stringsFrom fuel false (names.flatMap furtherItem ++ (Text.utf8 "\n  ]" ++ rest)) = .ok (names, rest) := by
  induction names generalizing fuel with
  | nil =>
    obtain ⟨fuel, rfl⟩ : ∃ k, fuel = k + 1 := ⟨fuel - 1, by simp at h; omega⟩
    have hclose : Text.utf8 "\n  ]" = [10, 32, 32, byte ']'] := by decide
    rw [hclose]
    rfl
  | cons s names ih =>
    obtain ⟨fuel, rfl⟩ : ∃ k, fuel = k + 1 := ⟨fuel - 1, by simp at h; omega⟩
    rw [List.flatMap_cons, List.append_assoc, stringsFrom, nextElement_further]
    simp only [bind, Except.bind, pure, Except.pure, stringValue_quoted]
    rw [ih (Nat.lt_of_succ_lt_succ h)]

private theorem length_le_furtherItems (names : List String) : names.length ≤ (names.flatMap furtherItem).length := by
  induction names with
  | nil => simp
  | cons s names ih =>
    have hpos : 0 < (furtherItem s).length := by
      simp only [furtherItem, quoted, List.length_append, List.length_cons]
      omega
    rw [List.flatMap_cons, List.length_append, List.length_cons]
    omega

/-- A written list of strings is read back. -/
theorem stringList_quoteList (names : List String) (rest : Bytes) :
    stringList (byte ' ' :: (Text.utf8 (quoteList names) ++ rest)) = .ok (names, rest) := by
  cases names with
  | nil =>
    have hempty : Text.utf8 (quoteList []) = [byte '[', byte ']'] := by decide
    rw [hempty]
    rfl
  | cons s names =>
    have hindent : Text.utf8 "\n    " = [10, 32, 32, 32, 32] := by decide
    have hfirst : ∀ bytes, nextElement true (Text.utf8 "\n    " ++ (quoted s ++ bytes)) =
        .ok (some (quoted s ++ bytes)) := by
      rw [hindent]
      exact fun _ => rfl
    have hskip : ∀ bytes, skipBlank (byte ' ' :: byte '[' :: bytes) = byte '[' :: bytes := fun _ => rfl
    rw [utf8_quoteList_cons, stringList, List.cons_append, hskip]
    simp only [if_true, List.append_assoc]
    rw [stringsFrom, hfirst]
    simp only [bind, Except.bind, pure, Except.pure, stringValue_quoted]
    rw [stringsFrom_further]
    -- the fuel is the number of bytes, and every item has some
    have hlength := length_le_furtherItems names
    simp only [List.length_cons, List.length_append]
    omega

end Predictive.Json
