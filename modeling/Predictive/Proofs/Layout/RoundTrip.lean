import Mathlib.Algebra.Group.Nat.Defs
import Predictive.Proofs.Json.Values

/-!
# Layouts are read back

A layout that can be used at all is read back from its JSON text, with its orders, its numbers and its fingerprint
(`Layout.ofJson_toJson`).
-/

namespace Predictive

/-! ### Fingerprints -/

namespace Numeral

private theorem digitValue?_hexDigit (n : Nat) : digitValue? 16 (hexDigit n) = some (n % 16) := by
  have hall : ∀ d < 16, digitValue? 16 (Nat.digitChar d) = some d := by decide
  exact hall (n % 16) (Nat.mod_lt n (by decide))

/-- The last digits of a number are read as its remainder. -/
private theorem digits_hex {width : Nat} (hw : width ≤ 16) (n : Nat) (cs : List Char) :
    digits 16 0 (hex width n ++ cs) = digits 16 (n % 16 ^ width) cs := by
  induction width generalizing n cs with
  | zero => simp [hex, Nat.mod_one]
  | succ width ih =>
    have hstep : n / 16 % 16 ^ width * 16 + n % 16 = n % 16 ^ (width + 1) := by
      rw [Nat.pow_succ, Nat.mul_comm (16 ^ width) 16, Nat.mod_mul]
      omega
    have hlt : n % 16 ^ (width + 1) < UInt64.size := by
      have hmod : n % 16 ^ (width + 1) < 16 ^ (width + 1) := Nat.mod_lt _ (Nat.pow_pos (by decide))
      have hpow : 16 ^ (width + 1) ≤ 16 ^ 16 := Nat.pow_le_pow_right (by decide) hw
      exact Nat.lt_of_lt_of_le hmod hpow
    rw [hex, List.append_assoc, ih (by omega), List.singleton_append, digits, digitValue?_hexDigit]
    simp only [hstep, if_pos hlt]

private theorem ne_of_mem_hex {width n : Nat} {c : Char} (h : c ∈ hex width n) : c ≠ 'x' ∧ c ≠ '+' := by
  have hall : ∀ d < 16, Nat.digitChar d ≠ 'x' ∧ Nat.digitChar d ≠ '+' := by decide
  induction width generalizing n with
  | zero => simp [hex] at h
  | succ width ih =>
    rcases List.mem_append.mp h with h | h
    · exact ih h
    · rw [List.mem_singleton.mp h]
      exact hall (n % 16) (Nat.mod_lt n (by decide))

private theorem read_of_not_mem {base : Nat} {cs : List Char} (hne : cs ≠ []) (h : '+' ∉ cs) :
    read base cs = digits base 0 cs := by
  unfold read
  split
  · exact absurd rfl hne
  · simp at h
  · simp at h
  · rfl

end Numeral

namespace Fingerprint

private theorem dropMarks_of_not_mem {cs : List Char} (h : 'x' ∉ cs) : dropMarks cs = cs := by
  unfold dropMarks
  split
  · simp at h
  · rfl

/-- A written fingerprint is read back. -/
theorem read_text (f : Fingerprint) : read f.text = .ok f := by
  have hx : 'x' ∉ Numeral.hex 16 f.value.toNat := fun h => (Numeral.ne_of_mem_hex h).1 rfl
  have hplus : '+' ∉ Numeral.hex 16 f.value.toNat := fun h => (Numeral.ne_of_mem_hex h).2 rfl
  have hne : Numeral.hex 16 f.value.toNat ≠ [] := List.ne_nil_of_length_pos (by simp)
  have hlt : f.value.toNat < 16 ^ 16 := f.value.toNat_lt
  have hdigits := Numeral.digits_hex (Nat.le_refl 16) f.value.toNat []
  rw [List.append_nil, Nat.mod_eq_of_lt hlt] at hdigits
  rw [read, text, String.toList_ofList, dropMarks_of_not_mem hx, Numeral.read_of_not_mem hne hplus, hdigits]
  simp [Numeral.digits, Except.map]

end Fingerprint

/-! ### Members -/

namespace Layout

open Json

/-- The bytes of a member in an object, with what stands in front of its name. -/
private def entry (lead : Bytes) (name : String) (value : Bytes) : Bytes :=
  lead ++ (Text.utf8 name ++ byte '"' :: byte ':' :: byte ' ' :: value)

private def firstLead : Bytes := [10, 32, 32, byte '"']

private def furtherLead : Bytes := [byte ',', 10, 32, 32, byte '"']

private theorem string_name {name : String} (h : String.ofList (name.toList.flatMap escapeChar) = name)
    (rest : Bytes) : string (Text.utf8 name ++ byte '"' :: rest) = .ok (name, rest) := by
  have hread := string_escaped name rest
  rwa [h] at hread

private theorem nextKey_firstLead (bytes : Bytes) : nextKey true (firstLead ++ bytes) = .ok (some bytes) := rfl

private theorem nextKey_furtherLead (bytes : Bytes) : nextKey false (furtherLead ++ bytes) = .ok (some bytes) := rfl

/-- A member of an object is read, and then the others. -/
private theorem membersFrom_entry {first : Bool} {lead : Bytes}
    (hkey : ∀ bytes, nextKey first (lead ++ bytes) = .ok (some bytes)) {name : String}
    (h : String.ofList (name.toList.flatMap escapeChar) = name) {m m' : Members} {value rest : Bytes}
    (hm : member m name (byte ':' :: byte ' ' :: (value ++ rest)) = .ok (m', rest)) (fuel : Nat) :
    membersFrom (fuel + 1) first m (entry lead name value ++ rest) = membersFrom fuel false m' rest := by
  rw [entry, List.append_assoc, membersFrom, hkey]
  simp only [List.append_assoc, List.cons_append, bind, Except.bind, string_name h, hm]

private theorem once_none {α : Type} {reader : Bytes → Except JsonError (α × Bytes)} {bytes rest : Bytes} {a : α}
    (h : reader (byte ' ' :: bytes) = .ok (a, rest)) :
    once none reader (byte ':' :: byte ' ' :: bytes) = .ok (some a, rest) := by
  have hcolon : colon (byte ':' :: byte ' ' :: bytes) = .ok (byte ' ' :: bytes) := rfl
  simp [once, hcolon, h, bind, Except.bind, pure, Except.pure]

private theorem wordValue_entry (n : UInt32) (name : String) (value rest : Bytes) :
    wordValue (byte ' ' :: (Text.utf8 (toString n.toNat) ++ (entry furtherLead name value ++ rest))) =
      .ok (n, entry furtherLead name value ++ rest) :=
  wordValue_toString n _

private theorem boolValue_written (b : Bool) (rest : Bytes) :
    boolValue (byte ' ' :: (Text.utf8 (if b then "true" else "false") ++ rest)) = .ok (b, rest) := by
  have htrue : Text.utf8 "true" = [byte 't', byte 'r', byte 'u', byte 'e'] := by decide
  have hfalse : Text.utf8 "false" = [byte 'f', byte 'a', byte 'l', byte 's', byte 'e'] := by decide
  cases b with
  | true =>
    rw [if_pos rfl, htrue]
    rfl
  | false =>
    rw [if_neg (by decide), hfalse]
    rfl

private theorem fingerprintValue_written (f : Fingerprint) (rest : Bytes) :
    fingerprintValue (byte ' ' :: (quoted f.text ++ rest)) = .ok (some f, rest) := by
  have hread := stringValue_quoted f.text rest
  have hskip : skipBlank (byte ' ' :: (quoted f.text ++ rest)) = byte '"' :: ((quoted f.text).tail ++ rest) := rfl
  have hnull : byte '"' ≠ byte 'n' := by decide
  rw [fingerprintValue, hskip]
  simp only [if_neg hnull, stringValue_blank, hread, bind, Except.bind, Fingerprint.read_text]

/-- The bytes of a written layout after its opening brace. -/
private def body (l : Layout) : Bytes :=
  entry firstLead "ts" (Text.utf8 (quoteList l.terminals)) ++
    (entry furtherLead "nts" (Text.utf8 (quoteList l.nonterminals)) ++
    (entry furtherLead "mod" (Text.utf8 (toString l.modulus.toNat)) ++
    (entry furtherLead "shift" (Text.utf8 (toString l.shift.toNat)) ++
    (entry furtherLead "nt-main" (Text.utf8 (if l.major = .nonterminal then "true" else "false")) ++
    ((l.fingerprint.elim [] fun f => entry furtherLead "fingerprint" (quoted f.text)) ++ [10, byte '\x7d'])))))

private theorem utf8_toJson (l : Layout) : Text.utf8 l.toJson = byte '\x7b' :: l.body := by
  have hopen : Text.utf8 "\x7b\n" = [byte '\x7b', 10] := by decide
  have hclose : Text.utf8 "\n\x7d" = [10, byte '\x7d'] := by decide
  have hseparator : Text.utf8 ",\n" = [byte ',', 10] := by decide
  have hlead : Text.utf8 "  \"" = [32, 32, byte '"'] := by decide
  have hcolon : Text.utf8 "\": " = [byte '"', byte ':', byte ' '] := by decide
  have htext : l.toJson = "\x7b\n" ++ ",\n".intercalate (l.members.map fun member =>
      "  \"" ++ member.1 ++ "\": " ++ member.2) ++ "\n\x7d" := rfl
  have hmembers : l.members = ("ts", quoteList l.terminals) :: ([("nts", quoteList l.nonterminals),
      ("mod", toString l.modulus.toNat), ("shift", toString l.shift.toNat),
      ("nt-main", if l.major = .nonterminal then "true" else "false")] ++
      l.fingerprint.elim [] fun f => [("fingerprint", quote f.text)]) := by
    cases h : l.fingerprint <;> simp [members, h]
  have hfingerprint : ((l.fingerprint.elim [] fun f => [("fingerprint", quote f.text)]).map
        fun member => "  \"" ++ member.1 ++ "\": " ++ member.2).flatMap
          (fun y => Text.utf8 ",\n" ++ Text.utf8 y) =
      l.fingerprint.elim [] fun f => entry furtherLead "fingerprint" (quoted f.text) := by
    cases l.fingerprint with
    | none => rfl
    | some f =>
      simp only [Option.elim, List.map_cons, List.map_nil, List.flatMap_cons, List.flatMap_nil, Text.utf8_append,
        utf8_quote, hseparator, hlead, hcolon, entry, furtherLead]
      simp
  rw [htext, hmembers, List.map_cons, List.map_append, Text.utf8_append, Text.utf8_append, utf8_intercalate,
    List.flatMap_append, hfingerprint]
  simp only [List.map_cons, List.map_nil, List.flatMap_cons, List.flatMap_nil, Text.utf8_append, hopen, hclose,
    hseparator, hlead, hcolon]
  simp [body, entry, firstLead, furtherLead]

/-! ### Layouts -/

private theorem membersFrom_fingerprint (f : Option Fingerprint) {m : Members} (hm : m.fingerprint = none)
    (fuel : Nat) (tail : Bytes) :
    membersFrom (fuel + 2) false m ((f.elim [] fun f => entry furtherLead "fingerprint" (quoted f.text)) ++
      (10 :: byte '\x7d' :: tail)) = .ok ({ m with fingerprint := f.map some }, 10 :: byte '\x7d' :: tail) := by
  have hend : ∀ fuel m, membersFrom (fuel + 1) false m (10 :: byte '\x7d' :: tail) =
      .ok (m, 10 :: byte '\x7d' :: tail) := fun _ _ => rfl
  cases f with
  | none =>
    obtain ⟨_, _, _, _, _, _⟩ := m
    simp only at hm
    subst hm
    exact hend _ _
  | some f =>
    have hmember : member m "fingerprint" (byte ':' :: byte ' ' :: (quoted f.text ++ (10 :: byte '\x7d' :: tail))) =
        .ok ({ m with fingerprint := some (some f) }, 10 :: byte '\x7d' :: tail) := by
      simp only [member, hm, once_none (fingerprintValue_written f _), Except.map]
    exact (membersFrom_entry nextKey_furtherLead (by decide) hmember (fuel + 1)).trans (hend _ _)

/-- The members of a written layout are read one after the other. -/
private theorem membersFrom_body (l : Layout) (fuel : Nat) (tail : Bytes) :
    membersFrom (fuel + 7) true {} (l.body ++ tail) =
      .ok (⟨some l.terminals, some l.nonterminals, some l.modulus, some l.shift,
        some (decide (l.major = .nonterminal)), l.fingerprint.map some⟩, 10 :: byte '\x7d' :: tail) := by
  have hterminals : ∀ rest, member {} "ts" (byte ':' :: byte ' ' :: (Text.utf8 (quoteList l.terminals) ++ rest)) =
      .ok ({ terminals := some l.terminals }, rest) := fun rest => by
    simp only [member, once_none (stringList_quoteList l.terminals rest), Except.map]
  have hnonterminals : ∀ (m : Members) rest, m.nonterminals = none →
      member m "nts" (byte ':' :: byte ' ' :: (Text.utf8 (quoteList l.nonterminals) ++ rest)) =
        .ok ({ m with nonterminals := some l.nonterminals }, rest) := fun m rest hm => by
    simp only [member, hm, once_none (stringList_quoteList l.nonterminals rest), Except.map]
  have hmodulus : ∀ (m : Members) name value rest, m.modulus = none →
      member m "mod" (byte ':' :: byte ' ' ::
          (Text.utf8 (toString l.modulus.toNat) ++ (entry furtherLead name value ++ rest))) =
        .ok ({ m with modulus := some l.modulus }, entry furtherLead name value ++ rest) := fun m _ _ _ hm => by
    simp only [member, hm, once_none (wordValue_entry l.modulus _ _ _), Except.map]
  have hshift : ∀ (m : Members) name value rest, m.shift = none →
      member m "shift" (byte ':' :: byte ' ' ::
          (Text.utf8 (toString l.shift.toNat) ++ (entry furtherLead name value ++ rest))) =
        .ok ({ m with shift := some l.shift }, entry furtherLead name value ++ rest) := fun m _ _ _ hm => by
    simp only [member, hm, once_none (wordValue_entry l.shift _ _ _), Except.map]
  have hmajor : ∀ (m : Members) rest, m.ntMain = none →
      member m "nt-main" (byte ':' :: byte ' ' ::
          (Text.utf8 (if l.major = .nonterminal then "true" else "false") ++ rest)) =
        .ok ({ m with ntMain := some (decide (l.major = .nonterminal)) }, rest) := fun m rest hm => by
    have hvalue := boolValue_written (decide (l.major = .nonterminal)) rest
    simp only [decide_eq_true_eq] at hvalue
    simp only [member, hm, once_none hvalue, Except.map]
  simp only [body, List.append_assoc]
  rw [membersFrom_entry nextKey_firstLead (by decide) (hterminals _),
    membersFrom_entry nextKey_furtherLead (by decide) (hnonterminals _ _ rfl),
    membersFrom_entry nextKey_furtherLead (by decide) (hmodulus _ _ _ _ rfl),
    membersFrom_entry nextKey_furtherLead (by decide) (hshift _ _ _ _ rfl),
    membersFrom_entry nextKey_furtherLead (by decide) (hmajor _ _ rfl)]
  exact membersFrom_fingerprint l.fingerprint rfl fuel tail

/-- The text of a layout stands for the layout, also with blanks behind it. -/
theorem parse_toJson (l : Layout) (tail : Bytes) (htail : skipBlank tail = []) :
    parse (Text.utf8 l.toJson ++ tail) = .ok l := by
  -- every member takes some bytes, so there are more of them than members
  have hfuel : ∃ fuel, (l.body ++ tail).length + 1 = fuel + 7 := by
    refine ⟨(l.body ++ tail).length - 6, ?_⟩
    have hlength : 6 ≤ (l.body ++ tail).length := by
      simp only [body, entry, firstLead, furtherLead, List.length_append, List.length_cons]
      omega
    omega
  obtain ⟨fuel, hfuel⟩ := hfuel
  have hmajor : (if decide (l.major = .nonterminal) = true then Major.nonterminal else .terminal) = l.major := by
    cases l.major <;> rfl
  have hfingerprint : (l.fingerprint.map some).getD none = l.fingerprint := by cases l.fingerprint <;> rfl
  have hend : endObject (10 :: byte '\x7d' :: tail) = .ok tail := rfl
  have hobject : ofObject (l.body ++ tail) = .ok (l, tail) := by
    rw [ofObject, hfuel, membersFrom_body]
    simp only [bind, Except.bind, Members.layout?, Option.bind, pure, Except.pure, hend, hmajor, hfingerprint]
  have hskip : skipBlank (byte '\x7b' :: (l.body ++ tail)) = byte '\x7b' :: (l.body ++ tail) := rfl
  rw [utf8_toJson, parse, List.cons_append, hskip]
  simp [hobject, htail, bind, Except.bind]

/-- A layout that can be used is read back from its text. -/
theorem ofJson_toJson {l : Layout} (hm : l.modulus ≠ 0) (hs : l.shift.toNat < 32) :
    ofJson (Text.utf8 l.toJson) = .ok l := by
  have hparse := parse_toJson l [] rfl
  rw [List.append_nil] at hparse
  rw [ofJson, hparse]
  simp only [validate, if_neg hm]
  rw [if_neg (by omega)]

end Layout

end Predictive
