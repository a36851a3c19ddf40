import Mathlib.Algebra.Group.Nat.Defs
import Predictive.Proofs.Layout.Placement

/-!
# Raw hashes as numbers

The raw hash of two positions of 32 bits is computed with words of 64 bits, and its sum never overflows
(`toNat_rawWord`). A shift of at most 32 loses no bits either, so the raw hash is the major position times `2 ^ shift`
plus the minor one (`rawHash_eq`). If the minor positions are below `2 ^ shift`, both positions can be read off
(`rawHash_inj`).
-/

namespace Predictive

/-! ### Words -/

namespace Major

variable {α : Type}

/-- What belongs to the symbol in the high bits. -/
def high (major : Major) (nt t : α) : α :=
  match major with
  | .nonterminal => nt
  | .terminal => t

/-- What belongs to the symbol in the low bits. -/
def low (major : Major) (nt t : α) : α :=
  match major with
  | .nonterminal => t
  | .terminal => nt

end Major

/-- The raw hash of two positions, computed with words. -/
def rawWord (major : Major) (shift : Nat) (nt t : UInt32) : UInt64 :=
  ((major.high nt t).toUInt64 <<< UInt64.ofNat shift) + (major.low nt t).toUInt64

private theorem toNat_shiftLeft_add (high low : UInt32) {shift : Nat} (hs : shift < 64) :
    ((high.toUInt64 <<< UInt64.ofNat shift) + low.toUInt64).toNat =
      (high.toNat <<< shift) % UInt64.size + low.toNat := by
  have hsum := shiftLeft_add_lt high.toNat_lt low.toNat_lt hs
  have hshift : (UInt64.ofNat shift).toNat % 64 = shift := by
    rw [UInt64.toNat_ofNat', Nat.mod_eq_of_lt (show shift < 2 ^ 64 by omega), Nat.mod_eq_of_lt hs]
  rw [UInt64.toNat_add, UInt64.toNat_shiftLeft, hshift, UInt32.toNat_toUInt64, UInt32.toNat_toUInt64]
  exact Nat.mod_eq_of_lt hsum

/-- The sum of words does not overflow. -/
theorem toNat_rawWord (major : Major) {shift : Nat} (hs : shift < 64) (nt t : UInt32) :
    (rawWord major shift nt t).toNat = rawHash major shift nt.toNat t.toNat := by
  cases major with
  | nonterminal => exact toNat_shiftLeft_add nt t hs
  | terminal => exact toNat_shiftLeft_add t nt hs

/-! ### Shifts that lose no bits -/

private theorem shiftLeft_mod_eq {n shift : Nat} (hn : n < 2 ^ 32) (hs : shift ≤ 32) :
    (n <<< shift) % UInt64.size = n * 2 ^ shift := by
  have hpow : 2 ^ shift ≤ 2 ^ 32 := Nat.pow_le_pow_right (by decide) hs
  have hprod : n * 2 ^ shift < 2 ^ 32 * 2 ^ 32 :=
    Nat.lt_of_lt_of_le (Nat.mul_lt_mul_of_pos_right hn (Nat.two_pow_pos shift)) (Nat.mul_le_mul_left _ hpow)
  rw [Nat.shiftLeft_eq]
  exact Nat.mod_eq_of_lt hprod

variable {shift nt t nt' t' : Nat}

theorem rawHash_eq (major : Major) (hs : shift ≤ 32) (hnt : nt < 2 ^ 32) (ht : t < 2 ^ 32) :
    rawHash major shift nt t = major.high nt t * 2 ^ shift + major.low nt t := by
  cases major with
  | nonterminal => rw [rawHash, shiftLeft_mod_eq hnt hs, Major.high, Major.low]
  | terminal => rw [rawHash, shiftLeft_mod_eq ht hs, Major.high, Major.low]

private theorem mul_add_inj {a b c d m : Nat} (hb : b < m) (hd : d < m) (h : a * m + b = c * m + d) :
    a = c ∧ b = d := by
  have hpos : 0 < m := Nat.zero_lt_of_lt hb
  have ha : (m * a + b) / m = a := by rw [Nat.mul_add_div hpos, Nat.div_eq_of_lt hb, Nat.add_zero]
  have hc : (m * c + d) / m = c := by rw [Nat.mul_add_div hpos, Nat.div_eq_of_lt hd, Nat.add_zero]
  rw [Nat.mul_comm a, Nat.mul_comm c] at h
  obtain rfl : a = c := by rw [← ha, h, hc]
  exact ⟨rfl, Nat.add_left_cancel h⟩

/-- The positions can be read off the raw hash, if the minor one has room in the low bits. -/
theorem rawHash_inj (major : Major) (hs : shift ≤ 32) (hnt : nt < 2 ^ 32) (ht : t < 2 ^ 32) (hnt' : nt' < 2 ^ 32)
    (ht' : t' < 2 ^ 32) (hlow : major.low nt t < 2 ^ shift) (hlow' : major.low nt' t' < 2 ^ shift)
    (h : rawHash major shift nt t = rawHash major shift nt' t') : nt = nt' ∧ t = t' := by
  rw [rawHash_eq major hs hnt ht, rawHash_eq major hs hnt' ht'] at h
  cases major with
  | nonterminal => exact mul_add_inj hlow hlow' h
  | terminal => exact (mul_add_inj hlow hlow' h).symm

end Predictive
