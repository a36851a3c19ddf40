import Predictive.Layout.Placement
import Predictive.Proofs.Layout.Numbering
import Predictive.Proofs.Outcome

/-!
# Keys with places of their own

Keys can be placed exactly if their places are distinct (`place_eq_ok`). Otherwise the first key is told whose place is
taken, with the one key before it that has this place (`place_eq_error`). So a layout that can be used at all gives every
key of a table a bucket if no two of them share one (`Layout.buckets_eq_ok`). The raw hash of two positions of 32 bits
fits into 64, under any shift below 64 (`rawHash_lt`).
-/

namespace Predictive

private theorem placeFrom_eq_ok {f : Key → Nat} {owners : List (Nat × Key)} {keys : List Key} {places : List Nat} :
    placeFrom f owners keys = .ok places ↔
      places = keys.map f ∧ (keys.map f).Nodup ∧ (keys.map f).Disjoint (owners.map Prod.fst) := by
  induction keys generalizing owners places with
  | nil => simp [placeFrom, eq_comm]
  | cons key keys ih =>
    rw [placeFrom, List.map_cons, nodup_disjoint_cons]
    cases hl : owners.lookup (f key) with
    | some owner =>
      simp only [reduceCtorEq, false_iff]
      exact fun h => h.2.1 (mem_of_lookup_eq_some hl)
    | none =>
      have hfree := lookup_eq_none_iff_not_mem.mp hl
      simp only [map_eq_ok, ih, List.map_cons]
      constructor
      · rintro ⟨rest, ⟨rfl, hrest⟩, rfl⟩
        exact ⟨rfl, hfree, hrest⟩
      · rintro ⟨rfl, -, hrest⟩
        exact ⟨_, ⟨rfl, hrest⟩, rfl⟩

/-- Keys are placed if their places are distinct. -/
theorem place_eq_ok {f : Key → Nat} {keys : List Key} {places : List Nat} :
    place f keys = .ok places ↔ places = keys.map f ∧ (keys.map f).Nodup := by
  simp [place, placeFrom_eq_ok]

private theorem placeFrom_eq_error {f : Key → Nat} {owners : List (Nat × Key)} {keys : List Key} {owner key : Key}
    (h : placeFrom f owners keys = .error (owner, key)) :
    ∃ before after, keys = before ++ key :: after ∧ (before.map f).Nodup ∧
      (before.map f).Disjoint (owners.map Prod.fst) ∧
      (owners.lookup (f key) = some owner ∨ owner ∈ before ∧ f owner = f key) := by
  induction keys generalizing owners with
  | nil => simp [placeFrom] at h
  | cons k keys ih =>
    rw [placeFrom] at h
    cases hl : owners.lookup (f k) with
    | some o =>
      simp only [hl, Except.error.injEq, Prod.mk.injEq] at h
      obtain ⟨rfl, rfl⟩ := h
      exact ⟨[], keys, rfl, by simp, by simp, Or.inl hl⟩
    | none =>
      simp only [hl, map_eq_error] at h
      obtain ⟨before, after, rfl, hnodup, hdisjoint, howner⟩ := ih h
      have hfree := lookup_eq_none_iff_not_mem.mp hl
      have hapart := nodup_disjoint_cons.mpr ⟨hfree, hnodup, hdisjoint⟩
      refine ⟨k :: before, after, rfl, hapart.1, hapart.2, ?_⟩
      rcases howner with howner | ⟨howner, heq⟩
      · by_cases hk : f key = f k
        · rw [hk, List.lookup_cons_self, Option.some.injEq] at howner
          exact Or.inr ⟨howner ▸ List.mem_cons_self, howner ▸ hk.symm⟩
        · rw [List.lookup_cons, beq_false_of_ne hk] at howner
          exact Or.inl howner
      · exact Or.inr ⟨List.mem_cons_of_mem k howner, heq⟩

theorem exists_place_eq_error {f : Key → Nat} {keys : List Key} (h : ¬ (keys.map f).Nodup) :
    ∃ owner key, place f keys = .error (owner, key) := by
  cases hplace : place f keys with
  | ok places => exact absurd (place_eq_ok.mp hplace).2 h
  | error clash => exact ⟨clash.1, clash.2, rfl⟩

/-- Where keys cannot be placed, those before the key that is told have places of their own, and one of them has its
place. -/
theorem place_eq_error {f : Key → Nat} {keys : List Key} {owner key : Key} (h : place f keys = .error (owner, key)) :
    ∃ before after, keys = before ++ key :: after ∧ (before.map f).Nodup ∧ owner ∈ before ∧ f owner = f key := by
  obtain ⟨before, after, hkeys, hnodup, -, howner | howner⟩ := placeFrom_eq_error h
  · simp at howner
  · exact ⟨before, after, hkeys, hnodup, howner⟩

/-! ### Raw hashes -/

/-- A number that is shifted leaves room for another one of 32 bits: either it loses no bits, or the places that
it leaves are at least 32. -/
theorem shiftLeft_add_lt {major minor shift : Nat} (hmajor : major < UInt32.size) (hminor : minor < UInt32.size)
    (hs : shift < 64) : (major <<< shift) % UInt64.size + minor < UInt64.size := by
  have hsize : UInt32.size = 2 ^ 32 := rfl
  have hsize' : UInt64.size = 2 ^ 32 * 2 ^ 32 := rfl
  rw [Nat.shiftLeft_eq]
  by_cases hwide : shift < 32
  · have hpow : 2 ^ shift ≤ 2 ^ 31 := Nat.pow_le_pow_right (by omega) (by omega)
    have hprod : major * 2 ^ shift ≤ (2 ^ 32 - 1) * 2 ^ 31 := Nat.mul_le_mul (by omega) hpow
    rw [Nat.mod_eq_of_lt (by omega)]
    omega
  · have hpow : 2 ^ shift = 2 ^ (shift - 32) * 2 ^ 32 := by
      rw [← Nat.pow_add]
      congr 1
      omega
    have hhigh : major * 2 ^ (shift - 32) % 2 ^ 32 < 2 ^ 32 := Nat.mod_lt _ (by omega)
    rw [hpow, ← Nat.mul_assoc, hsize', Nat.mul_mod_mul_right]
    omega

/-- The raw hash of two positions is a number of 64 bits. -/
theorem rawHash_lt (major : Major) {shift nt t : Nat} (hnt : nt < UInt32.size) (ht : t < UInt32.size)
    (hs : shift < 64) : rawHash major shift nt t < UInt64.size := by
  cases major with
  | nonterminal => exact shiftLeft_add_lt hnt ht hs
  | terminal => exact shiftLeft_add_lt ht hnt hs

section RawHashes

variable {g : Grammar} {table : Table} {num : Numbering} {major : Major} {shift : Nat} (hs : shift < 64)

include hs

theorem rawHashes_of_nodup (h : (table.keys.map (keyHash num major shift)).Nodup) :
    rawHashes g table num major shift = .ok (table.keys.map (keyHash num major shift)) := by
  have hwide : ¬ (table.keys ≠ [] ∧ 64 ≤ shift) := fun hw => by omega
  rw [rawHashes, if_neg hwide, place_eq_ok.mpr ⟨rfl, h⟩]

theorem rawHashes_of_not_nodup (h : ¬ (table.keys.map (keyHash num major shift)).Nodup) :
    ∃ first second, rawHashes g table num major shift = .error (.rawCollision first second shift) := by
  have hwide : ¬ (table.keys ≠ [] ∧ 64 ≤ shift) := fun hw => by omega
  obtain ⟨owner, key, herror⟩ := exists_place_eq_error h
  rw [rawHashes, if_neg hwide, herror]
  exact ⟨_, _, rfl⟩

end RawHashes

/-! ### Buckets -/

namespace Layout

variable {l : Layout} {g : Grammar} {table : Table} {num : Numbering}

theorem modulus_ne_zero (h : 1 ≤ l.modulus.toNat) : l.modulus ≠ 0 := by
  intro hzero
  simp [hzero] at h

theorem modulus_pos (hm : l.modulus ≠ 0) : 0 < l.modulus.toNat :=
  Nat.pos_of_ne_zero fun h => hm (UInt32.toNat_inj.mp h)

theorem bucket_lt (hm : l.modulus ≠ 0) (nt t : Nat) : l.bucket nt t < l.modulus.toNat :=
  Nat.mod_lt _ (modulus_pos hm)

/-- The bucket of a key of a table. -/
def keyBucket (l : Layout) (num : Numbering) (key : Key) : Nat :=
  l.bucket (num.nonterminalAt key.1) (num.terminalAt key.2)

section Buckets

variable (hm : l.modulus ≠ 0) (hs : l.shift.toNat < 64)

include hm hs

theorem buckets_eq : l.buckets g table num = match place (l.keyBucket num) table.keys with
    | .ok places => .ok places
    | .error (first, second) => .error
        (.bucketCollision (l.keyBucket num second) (g.keyName first.1 first.2) (g.keyName second.1 second.2)) := by
  have husable : ¬ (table.keys ≠ [] ∧ (64 ≤ l.shift.toNat ∨ l.modulus = 0)) := by
    rintro ⟨-, h | h⟩
    · omega
    · exact hm h
  simp only [buckets, if_neg husable]
  rfl

/-- All keys have buckets if these are distinct. -/
theorem buckets_eq_ok {places : List Nat} : l.buckets g table num = .ok places ↔
    places = table.keys.map (l.keyBucket num) ∧ (table.keys.map (l.keyBucket num)).Nodup := by
  rw [buckets_eq hm hs, ← place_eq_ok]
  split <;> simp [*]

end Buckets

end Layout

end Predictive
