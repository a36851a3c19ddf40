import Mathlib.Data.List.Nodup
import Predictive.Search.Stamps

/-!
# Tests with stamps are exact

Stamps are left over from test to test, but none of them is newer than the last test (`Stamps.Valid`). Then a new
generation is on no residue, so a test says exactly whether numbers are distinct modulo `m`
(`Stamps.distinctModulo_eq`), and the scan for a modulus is a plain search for the first one that does
(`Stamps.leastModulus_eq`). That a test which succeeds is right needs nothing of the stamps
(`Stamps.nodup_of_distinctModulo`).

So tests that follow each other with one buffer are all exact, however many there are, and every residue that they look
at has a stamp (`Stamps.testAll_exact`).
-/

namespace Predictive.Stamps

private theorem getD_setIfInBounds {stamps : Array UInt32} {i : Nat} (hi : i < stamps.size) (x : UInt32) (j : Nat) :
    (stamps.setIfInBounds i x).getD j 0 = if i = j then x else stamps.getD j 0 := by
  rw [Array.getD_eq_getD_getElem?, Array.getElem?_setIfInBounds]
  by_cases hij : i = j
  · subst hij
    simp [hi]
  · simp [hij, Array.getD_eq_getD_getElem?]

/-- Numbers are all stamped anew if their residues are distinct and without the stamp of this generation. -/
private theorem mark_eq_true_iff {m : Nat} (hm : 0 < m) {raws : List Nat} {s : Stamps} (hsize : m ≤ s.stamps.size) :
    (mark m raws s).1 = true ↔
      (raws.map (· % m)).Nodup ∧ ∀ raw ∈ raws, s.stamps.getD (raw % m) 0 ≠ s.generation := by
  induction raws generalizing s with
  | nil => simp [mark]
  | cons raw raws ih =>
    obtain ⟨stamps, generation⟩ := s
    have hlt : raw % m < stamps.size := Nat.lt_of_lt_of_le (Nat.mod_lt raw hm) hsize
    rw [mark, List.map_cons, List.nodup_cons, List.forall_mem_cons]
    by_cases hold : stamps.getD (raw % m) 0 = generation
    · simp [hold]
    · rw [if_neg hold, ih (by simpa using hsize)]
      simp only [getD_setIfInBounds hlt]
      constructor
      · -- after `raw` is stamped, the others must avoid its residue too
        rintro ⟨hnodup, hstamps⟩
        refine ⟨⟨?_, hnodup⟩, hold, ?_⟩
        · intro hmem
          obtain ⟨other, hother, heq⟩ := List.mem_map.mp hmem
          exact hstamps other hother (if_pos heq.symm)
        · intro other hother
          have hne := hstamps other hother
          split at hne
          · exact absurd rfl hne
          · exact hne
      · rintro ⟨⟨hnot, hnodup⟩, -, hstamps⟩
        refine ⟨hnodup, ?_⟩
        intro other hother
        have hne : raw % m ≠ other % m := fun heq => hnot (List.mem_map.mpr ⟨other, hother, heq.symm⟩)
        rw [if_neg hne]
        exact hstamps other hother

private theorem le_size_advance_grow (s : Stamps) (m : Nat) : m ≤ (s.grow m).advance.stamps.size := by
  obtain ⟨stamps, generation⟩ := s
  by_cases hlast : generation + 1 = 0 <;> simp [grow, advance, hlast] <;> omega

/-- Numbers that pass the test are distinct modulo `m`. -/
theorem nodup_of_distinctModulo {s : Stamps} {raws : List Nat} {m : Nat} (hm : 0 < m)
    (h : (s.distinctModulo raws m).1 = true) : (raws.map (· % m)).Nodup :=
  ((mark_eq_true_iff hm (le_size_advance_grow s m)).mp h).1

/-- The least modulus is in its range and makes the numbers distinct. -/
theorem leastModulus_some {raws : List Nat} {count m k : Nat} (hm : 0 < m) {s : Stamps}
    (h : (leastModulus raws count m s).1 = some k) : m ≤ k ∧ k < m + count ∧ (raws.map (· % k)).Nodup := by
  induction count generalizing m s with
  | zero => simp [leastModulus] at h
  | succ count ih =>
    rw [leastModulus] at h
    by_cases hok : (s.distinctModulo raws m).1 = true
    · obtain rfl : m = k := by simpa [hok] using h
      exact ⟨Nat.le_refl m, by omega, nodup_of_distinctModulo hm hok⟩
    · rw [Bool.not_eq_true] at hok
      simp only [hok, Bool.false_eq_true, if_false] at h
      obtain ⟨hle, hlt, hnodup⟩ := ih (Nat.succ_pos m) h
      exact ⟨by omega, by omega, hnodup⟩

/-! ### Stamps of earlier tests -/

/-- No stamp is newer than the last test. -/
def Valid (s : Stamps) : Prop := ∀ i, s.stamps.getD i 0 ≤ s.generation

theorem valid_empty : ({} : Stamps).Valid := by
  intro i
  simp

private theorem Valid.grow {s : Stamps} (hs : s.Valid) (m : Nat) : (s.grow m).Valid := by
  obtain ⟨stamps, generation⟩ := s
  intro i
  show (stamps ++ Array.replicate (m - stamps.size) (0 : UInt32)).getD i 0 ≤ generation
  rw [Array.getD_eq_getD_getElem?, Array.getElem?_append]
  split
  · have hi := hs i
    rwa [Array.getD_eq_getD_getElem?] at hi
  · rw [Array.getElem?_replicate]
    split <;> simp

private theorem lt_add_one {x generation : UInt32} (h : x ≤ generation) (hlast : generation + 1 ≠ 0) :
    x < generation + 1 := by
  have hne : generation.toNat + 1 ≠ 2 ^ 32 := by
    intro heq
    apply hlast
    apply UInt32.toNat_inj.mp
    rw [UInt32.toNat_add, UInt32.toNat_one, heq]
    rfl
  have hbound : generation.toNat < 2 ^ 32 := generation.toNat_lt
  have hsum : (generation + 1).toNat = generation.toNat + 1 := by
    rw [UInt32.toNat_add, UInt32.toNat_one, Nat.mod_eq_of_lt (by omega)]
  rw [UInt32.le_iff_toNat_le] at h
  rw [UInt32.lt_iff_toNat_lt, hsum]
  omega

/-- After a new generation was started no residue has its stamp. -/
private theorem Valid.lt_advance {s : Stamps} (hs : s.Valid) (i : Nat) :
    s.advance.stamps.getD i 0 < s.advance.generation := by
  obtain ⟨stamps, generation⟩ := s
  by_cases hlast : generation + 1 = 0
  · -- the generations are used up, and all stamps are reset
    have hreset : (Array.replicate stamps.size (0 : UInt32)).getD i 0 = 0 := by
      rw [Array.getD_eq_getD_getElem?, Array.getElem?_replicate]
      split <;> rfl
    simp only [advance, if_pos hlast, hreset]
    decide
  · simp only [advance, if_neg hlast]
    exact lt_add_one (hs i) hlast

private theorem Valid.mark {s : Stamps} (hs : s.Valid) (m : Nat) (raws : List Nat) : (mark m raws s).2.Valid := by
  induction raws generalizing s with
  | nil => exact hs
  | cons raw raws ih =>
    obtain ⟨stamps, generation⟩ := s
    rw [Stamps.mark]
    split
    · exact hs
    · apply ih
      intro i
      by_cases hi : raw % m < stamps.size
      · show (stamps.setIfInBounds (raw % m) generation).getD i 0 ≤ generation
        rw [getD_setIfInBounds hi]
        split
        · exact UInt32.le_refl generation
        · exact hs i
      · rw [Array.setIfInBounds_eq_of_size_le (Nat.le_of_not_lt hi)]
        exact hs i

/-- A test is exact, and leaves valid stamps. -/
theorem Valid.distinctModulo_eq {s : Stamps} (hs : s.Valid) (raws : List Nat) {m : Nat} (hm : 0 < m) :
    (s.distinctModulo raws m).1 = decide (raws.map (· % m)).Nodup ∧ (s.distinctModulo raws m).2.Valid := by
  have hfresh := (hs.grow m).lt_advance
  constructor
  · rw [Bool.eq_iff_iff, decide_eq_true_eq, distinctModulo, mark_eq_true_iff hm (le_size_advance_grow s m)]
    exact ⟨fun h => h.1, fun h => ⟨h, fun raw _ => UInt32.ne_of_lt (hfresh (raw % m))⟩⟩
  · exact Valid.mark (fun i => UInt32.le_of_lt (hfresh i)) m raws

/-- The scan finds the first modulus that makes the numbers distinct. -/
theorem Valid.leastModulus_eq {s : Stamps} (hs : s.Valid) (raws : List Nat) (count : Nat) {m : Nat} (hm : 0 < m) :
    (leastModulus raws count m s).1 = (List.range' m count).find? (fun k => (raws.map (· % k)).Nodup) ∧
      (leastModulus raws count m s).2.Valid := by
  induction count generalizing m s with
  | zero => exact ⟨rfl, hs⟩
  | succ count ih =>
    obtain ⟨htest, hvalid⟩ := hs.distinctModulo_eq raws hm
    rw [List.range'_succ, List.find?_cons, leastModulus]
    by_cases hnodup : (raws.map (· % m)).Nodup
    · simpa [htest, hnodup] using hvalid
    · simpa [htest, hnodup] using ih hvalid (Nat.succ_pos m)

/-! ### Tests that follow each other -/

/-- Stamps residues as `mark` does, where each of them must have a place in the buffer. -/
def mark? (m : Nat) : List Nat → Stamps → Option (Bool × Stamps)
  | [], s => some (true, s)
  | raw :: rest, s =>
    let ⟨stamps, generation⟩ := s
    if h : raw % m < stamps.size then
      if stamps[raw % m] = generation then some (false, ⟨stamps, generation⟩)
      else mark? m rest ⟨stamps.set (raw % m) generation h, generation⟩
    else none

/-- Tests numbers as `distinctModulo` does, where each residue must have a place in the buffer. -/
def distinctModulo? (s : Stamps) (raws : List Nat) (m : Nat) : Option (Bool × Stamps) :=
  mark? m raws (s.grow m).advance

/-- The outcomes of tests that follow each other with one buffer, and what they leave in it. A test has its numbers and
its modulus. -/
def testAll : List (List Nat × Nat) → Stamps → List Bool × Stamps
  | [], s => ([], s)
  | (raws, m) :: tests, s =>
    let (ok, s) := s.distinctModulo raws m
    let (oks, s) := testAll tests s
    (ok :: oks, s)

/-- The same tests, where each residue must have a place in the buffer. -/
def testAll? : List (List Nat × Nat) → Stamps → Option (List Bool × Stamps)
  | [], s => some ([], s)
  | (raws, m) :: tests, s => do
    let (ok, s) ← s.distinctModulo? raws m
    let (oks, s) ← testAll? tests s
    return (ok :: oks, s)

/-- All residues have a place in a buffer as large as the modulus. -/
private theorem mark?_eq {m : Nat} (hm : 0 < m) (raws : List Nat) {s : Stamps} (hsize : m ≤ s.stamps.size) :
    mark? m raws s = some (mark m raws s) := by
  induction raws generalizing s with
  | nil => rfl
  | cons raw raws ih =>
    obtain ⟨stamps, generation⟩ := s
    have hlt : raw % m < stamps.size := Nat.lt_of_lt_of_le (Nat.mod_lt raw hm) hsize
    have hget : stamps.getD (raw % m) 0 = stamps[raw % m] := by simp [Array.getD, hlt]
    rw [mark?, mark, dif_pos hlt, hget]
    split
    · rfl
    · rw [Array.setIfInBounds, dif_pos hlt]
      exact ih (by simpa using hsize)

private theorem distinctModulo?_eq (s : Stamps) (raws : List Nat) {m : Nat} (hm : 0 < m) :
    s.distinctModulo? raws m = some (s.distinctModulo raws m) :=
  mark?_eq hm raws (le_size_advance_grow s m)

/-- Tests with valid stamps are exact, one after the other. -/
private theorem Valid.testAll_eq {s : Stamps} (hs : s.Valid) {tests : List (List Nat × Nat)}
    (hpos : ∀ test ∈ tests, 1 ≤ test.2) :
    (testAll tests s).1 = tests.map (fun test => decide (test.1.Pairwise fun a b => a % test.2 ≠ b % test.2)) ∧
      testAll? tests s = some (testAll tests s) := by
  induction tests generalizing s with
  | nil => exact ⟨rfl, rfl⟩
  | cons test tests ih =>
    obtain ⟨raws, m⟩ := test
    obtain ⟨hm, hpos⟩ := List.forall_mem_cons.mp hpos
    obtain ⟨htest, hvalid⟩ := hs.distinctModulo_eq raws hm
    obtain ⟨hrest, hchecked⟩ := ih hvalid hpos
    constructor
    · rw [testAll, List.map_cons, ← hrest, ← htest.trans (decide_eq_decide.mpr List.pairwise_map)]
    · rw [testAll?, distinctModulo?_eq s raws hm]
      simp only [bind, Option.bind, hchecked]
      rfl

/-- Tests that follow each other with one buffer, which is empty before the first, are exact: each of them tells whether
its numbers are pairwise distinct modulo its own modulus, however many tests there were before and whatever their moduli.
No residue is looked up outside the buffer. -/
theorem testAll_exact (tests : List (List Nat × Nat)) (hpos : ∀ test ∈ tests, 1 ≤ test.2) :
    (testAll tests {}).1 = tests.map (fun test => decide (test.1.Pairwise fun a b => a % test.2 ≠ b % test.2)) ∧
      testAll? tests {} = some (testAll tests {}) := valid_empty.testAll_eq hpos

/-- The moduli grow and shrink, and a test that fails leaves some of its stamps. -/
theorem testAll_exact_up_and_down :
    (∀ test ∈ [([0, 4, 2], 3), ([1, 4, 2], 3), ([7, 9, 0], 8), ([0, 3], 2), ([1, 1], 1)], 1 ≤ test.2) ∧
      (testAll [([0, 4, 2], 3), ([1, 4, 2], 3), ([7, 9, 0], 8), ([0, 3], 2), ([1, 1], 1)] {}).1 =
        [true, false, true, true, false] ∧
      testAll? [([0, 4, 2], 3), ([1, 4, 2], 3), ([7, 9, 0], 8), ([0, 3], 2), ([1, 1], 1)] {} =
        some (testAll [([0, 4, 2], 3), ([1, 4, 2], 3), ([7, 9, 0], 8), ([0, 3], 2), ([1, 1], 1)] {}) := by
  have hpos : ∀ test ∈ [([0, 4, 2], 3), ([1, 4, 2], 3), ([7, 9, 0], 8), ([0, 3], 2), ([1, 1], 1)], 1 ≤ test.2 := by
    decide
  obtain ⟨hexact, hchecked⟩ := testAll_exact _ hpos
  exact ⟨hpos, hexact.trans (by decide), hchecked⟩

end Predictive.Stamps
