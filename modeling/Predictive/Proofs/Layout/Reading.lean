import Predictive.Files.LayoutFile
import Predictive.Proofs.Layout.RoundTrip

/-!
# Layouts that can be read

Reading checks a layout after its text was understood. So the text of a layout, also with the end of line that a file
has, is read back exactly if the modulus is positive and the shift below 32, and is refused as invalid otherwise. What
was read from any bytes passed the check, so it can be written and read again (`Layout.reads_back_iff_valid`).
-/

namespace Predictive.Layout

open Json

/-- A layout that can be used with some grammar. -/
structure Valid (l : Layout) : Prop where
  modulus_pos : 1 ≤ l.modulus.toNat
  shift_lt : l.shift.toNat < 32

instance (l : Layout) : Decidable l.Valid :=
  decidable_of_iff (1 ≤ l.modulus.toNat ∧ l.shift.toNat < 32) ⟨fun h => ⟨h.1, h.2⟩, fun h => ⟨h.1, h.2⟩⟩

/-- The check accepts the valid layouts as they are, and says what is wrong with others. -/
private theorem validate_cases (l : Layout) : (l.Valid ∧ l.validate = .ok l) ∨
    (¬ l.Valid ∧ ∃ cause, l.validate = .error (.invalidLayout cause)) := by
  unfold validate
  by_cases hzero : l.modulus = 0
  · rw [if_pos hzero]
    refine Or.inr ⟨?_, _, rfl⟩
    rintro ⟨hpos, -⟩
    simp [hzero] at hpos
  · rw [if_neg hzero]
    have hne : l.modulus.toNat ≠ 0 := fun h => hzero (UInt32.toNat_inj.mp h)
    by_cases hshift : 32 ≤ l.shift.toNat
    · rw [if_pos hshift]
      refine Or.inr ⟨?_, _, rfl⟩
      rintro ⟨-, hlt⟩
      omega
    · rw [if_neg hshift]
      exact Or.inl ⟨⟨by omega, by omega⟩, rfl⟩

/-- A written layout is read as the check says. -/
private theorem ofJson_append (l : Layout) (tail : Bytes) (htail : skipBlank tail = []) :
    ofJson (Text.utf8 l.toJson ++ tail) = l.validate := by
  rw [ofJson, parse_toJson l tail htail]

private theorem ofJson_eq_validate (l : Layout) : ofJson (Text.utf8 l.toJson) = l.validate := by
  have happend := ofJson_append l [] rfl
  rwa [List.append_nil] at happend

private theorem ofJson_fileBytes (l : Layout) : ofJson l.fileBytes = l.validate := by
  have hnewline : Text.utf8 "\n" = [10] := by decide
  rw [fileBytes, Text.utf8_append, hnewline]
  exact ofJson_append l [10] rfl

/-- The end of the line in a file does not matter. -/
theorem ofJson_fileBytes_eq (l : Layout) : ofJson l.fileBytes = ofJson (Text.utf8 l.toJson) := by
  rw [ofJson_fileBytes, ofJson_eq_validate]

private theorem valid_of_ofJson {bytes : Bytes} {l : Layout} (h : ofJson bytes = .ok l) : l.Valid := by
  unfold ofJson at h
  cases hparse : parse bytes with
  | error e => simp [hparse] at h
  | ok read =>
    rw [hparse] at h
    rcases read.validate_cases with ⟨hvalid, hok⟩ | ⟨-, cause, herror⟩
    · obtain rfl : read = l := Except.ok.inj (hok.symm.trans h)
      exact hvalid
    · simp [herror] at h

/-- The written form of a layout, on its own or in a file, is read back if the layout is valid, and refused as invalid
otherwise. Every layout that is read is valid, whatever the bytes, so it is read back when it is written again. -/
theorem reads_back_iff_valid :
    (∀ l : Layout, l.Valid → ofJson (Text.utf8 l.toJson) = .ok l ∧ ofJson l.fileBytes = .ok l) ∧
    (∀ l : Layout, ¬ l.Valid → ∃ cause, ofJson (Text.utf8 l.toJson) = .error (.invalidLayout cause) ∧
      ofJson l.fileBytes = .error (.invalidLayout cause)) ∧
    ∀ (bytes : List UInt8) (l : Layout), ofJson bytes = .ok l → l.Valid ∧ ofJson (Text.utf8 l.toJson) = .ok l := by
  have hreadBack : ∀ l : Layout, l.Valid → l.validate = .ok l := by
    intro l hvalid
    rcases l.validate_cases with ⟨-, hok⟩ | ⟨hnot, -⟩
    · exact hok
    · exact absurd hvalid hnot
  refine ⟨?_, ?_, ?_⟩
  · intro l hvalid
    rw [ofJson_eq_validate, ofJson_fileBytes]
    exact ⟨hreadBack l hvalid, hreadBack l hvalid⟩
  · intro l hnot
    rw [ofJson_eq_validate, ofJson_fileBytes]
    rcases l.validate_cases with ⟨hvalid, -⟩ | ⟨-, cause, herror⟩
    · exact absurd hvalid hnot
    · exact ⟨cause, herror, herror⟩
  · intro bytes l h
    have hvalid := valid_of_ofJson h
    rw [ofJson_eq_validate]
    exact ⟨hvalid, hreadBack l hvalid⟩

theorem reads_back_escaped :
    ofJson (Text.utf8 (toJson ⟨["\"\\\n\x00", "é😀"], [""], 1, 31, .terminal, some ⟨0xfedcba9876543210⟩⟩)) =
      .ok ⟨["\"\\\n\x00", "é😀"], [""], 1, 31, .terminal, some ⟨0xfedcba9876543210⟩⟩ ∧
    ∃ cause, ofJson (Text.utf8 (toJson ⟨["a"], [], 1, 32, .nonterminal, none⟩)) = .error (.invalidLayout cause) := by
  obtain ⟨hvalid, hinvalid, -⟩ := reads_back_iff_valid
  refine ⟨(hvalid _ (by decide)).1, ?_⟩
  obtain ⟨cause, herror, -⟩ := hinvalid ⟨["a"], [], 1, 32, .nonterminal, none⟩ (by decide)
  exact ⟨cause, herror⟩

end Predictive.Layout
