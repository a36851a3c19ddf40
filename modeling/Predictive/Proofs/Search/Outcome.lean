import Mathlib.Order.Bounds.Basic
import Predictive.Proofs.Search.Least
import Predictive.Proofs.Search.Run
import Predictive.Proofs.Table.Recognition

/-!
# Outcomes of trials

A trial of two orders is judged by the positions that they give to symbols. With these a key has a raw hash for either
major symbol (`Orders.hash`), and a modulus separates the keys if no two of them have one residue
(`Orders.Separates`). A trial fails exactly if two keys have one raw hash. Otherwise it finds the least modulus of 32 bits
that separates the keys with either symbol as the major one, if this is below the bound, and prefers the
nonterminal (`Problem.trial_finds_least_separating`).
-/

namespace Predictive

namespace Orders

variable (o : Orders) (table : Table) (shift : Nat)

/-- The raw hash of a key by the positions of its symbols. -/
def hash (major : Major) (key : Key) : Nat :=
  rawHash major shift (o.nonterminals.idxOf key.1) (o.terminals.idxOf key.2)

/-- Two keys have one raw hash. -/
def Clashes (major : Major) : Prop :=
  ∃ k ∈ table.keys, ∃ k' ∈ table.keys, k ≠ k' ∧ o.hash shift major k = o.hash shift major k'

instance (major : Major) : Decidable (o.Clashes table shift major) :=
  inferInstanceAs (Decidable (∃ _ ∈ _, ∃ _ ∈ _, _ ∧ _))

/-- The keys are distinct modulo `m`. -/
def Separates (major : Major) (m : Nat) : Prop :=
  ∀ k ∈ table.keys, ∀ k' ∈ table.keys, k ≠ k' → o.hash shift major k % m ≠ o.hash shift major k' % m

/-- The moduli of 32 bits that separate the keys, with one of the symbols as the major one. -/
def separating : Set Nat := {m | 1 ≤ m ∧ m ≤ 2 ^ 32 - 1 ∧ ∃ major, o.Separates table shift major m}

variable {o table shift}

/-- Different raw hashes stay different modulo a number above all of them. -/
theorem separates_of_lt {major : Major} (hno : ¬ o.Clashes table shift major) {m : Nat}
    (hlt : ∀ key ∈ table.keys, o.hash shift major key < m) : o.Separates table shift major m := by
  intro k hk k' hk' hne heq
  rw [Nat.mod_eq_of_lt (hlt k hk), Nat.mod_eq_of_lt (hlt k' hk')] at heq
  exact hno ⟨k, hk, k', hk', hne, heq⟩

end Orders

private theorem nodup_map_iff {l : List Key} (hl : l.Nodup) {f : Key → Nat} :
    (l.map f).Nodup ↔ ∀ k ∈ l, ∀ k' ∈ l, k ≠ k' → f k ≠ f k' := by
  rw [List.nodup_map_iff_inj_on hl]
  constructor
  · intro h k hk k' hk' hne heq
    exact hne (h k hk k' hk' heq)
  · intro h k hk k' hk' heq
    by_contra hne
    exact h k hk k' hk' hne heq

private theorem getD_positions {order : List Nat} {i : Nat} (hi : i < order.length) :
    (Numbering.positions order).getD i 0 = order.idxOf i := by
  simp [Numbering.positions, hi]

/-! ### Positions in the orders -/

namespace Problem

section Positions

variable {g : Grammar} {c : Compiled} (hc : Compiled.compile g = .ok c) {shift : UInt32} {o : Orders}
  (ho : o.Permute g)

include hc ho

theorem hashes_eq (major : Major) :
    (Problem.of g c.table shift).hashes o major = c.table.keys.map (o.hash shift.toNat major) := by
  refine List.map_congr_left fun key hkey => ?_
  obtain ⟨hn, ht⟩ := Table.key_lt (Compiled.build_of_compile hc) hkey
  have hnt : key.1 < o.nonterminals.length := by simpa [ho.nonterminals.length_eq, Grammar.nonterminalIds] using hn
  have htt : key.2 < o.terminals.length := by simpa [ho.terminals.length_eq, Grammar.terminalIds] using ht
  have hpn : (Numbering.ofOrders o.terminals o.nonterminals).nonterminalAt key.1 = o.nonterminals.idxOf key.1 :=
    getD_positions hnt
  have hpt : (Numbering.ofOrders o.terminals o.nonterminals).terminalAt key.2 = o.terminals.idxOf key.2 :=
    getD_positions htt
  rw [keyHash, hpn, hpt]
  rfl

theorem collides_iff :
    (Problem.of g c.table shift).Collides o ↔ ∃ major, o.Clashes c.table shift.toNat major := by
  have hkeys := Table.nodup_keys (Compiled.build_of_compile hc)
  refine exists_congr fun major => ?_
  rw [hashes_eq hc ho, nodup_map_iff hkeys]
  simp only [Orders.Clashes, not_forall, not_not, exists_prop]

private theorem apart_iff {major : Major} {m : Nat} : (Problem.of g c.table shift).Apart o major m ↔
    1 ≤ m ∧ m ≤ 2 ^ 32 - 1 ∧ o.Separates c.table shift.toNat major m := by
  have hkeys := Table.nodup_keys (Compiled.build_of_compile hc)
  have hmap : (c.table.keys.map (o.hash shift.toNat major)).map (· % m) =
      c.table.keys.map fun key => o.hash shift.toNat major key % m := List.map_map
  rw [Apart, hashes_eq hc ho, hmap, nodup_map_iff hkeys]
  exact and_congr Iff.rfl (and_congr Nat.lt_succ_iff Iff.rfl)

/-! ### The least modulus -/

private theorem least_le {m : Nat} (hm : m ∈ o.separating c.table shift.toNat) :
    (Problem.of g c.table shift).least o ≤ m := by
  obtain ⟨hpos, hsize, major, hsep⟩ := hm
  exact sInf_le ⟨m, rfl, major, (apart_iff hc ho).mpr ⟨hpos, hsize, hsep⟩⟩

/-- The least modulus is below the bound if one that separates the keys is. -/
private theorem least_lt_iff {bound : Option Nat} : (Problem.of g c.table shift).least o < asBound bound ↔
    ∃ m ∈ o.separating c.table shift.toNat, ∀ b, bound = some b → m < b := by
  constructor
  · intro hlt
    obtain ⟨m, hm, major, hmajor⟩ := exists_apart_of_least_lt hlt
    obtain ⟨hpos, hsize, hsep⟩ := (apart_iff hc ho).mp hmajor
    exact ⟨m, ⟨hpos, hsize, major, hsep⟩, Hit.lt_asBound.mp (hm ▸ hlt)⟩
  · rintro ⟨m, hm, hlt⟩
    exact lt_of_le_of_lt (least_le hc ho hm) (Hit.lt_asBound.mpr hlt)

/-- The layout of the least modulus is for a symbol that can be the major one, and for the nonterminal if it can. -/
private theorem separates_record {b : ℕ∞} (h : (Problem.of g c.table shift).least o < b) :
    IsLeast (o.separating c.table shift.toNat) ((Problem.of g c.table shift).record o).modulus.toNat ∧
      o.Separates c.table shift.toNat ((Problem.of g c.table shift).record o).major
        ((Problem.of g c.table shift).record o).modulus.toNat ∧
      (o.Separates c.table shift.toNat .nonterminal ((Problem.of g c.table shift).record o).modulus.toNat →
        ((Problem.of g c.table shift).record o).major = .nonterminal) := by
  have hmodulus := modulus_record h
  obtain ⟨m, hm, major, hmajor⟩ := exists_apart_of_least_lt h
  obtain rfl := Nat.cast_inj.mp (hmodulus.trans hm)
  obtain ⟨hpos, hsize, hsep⟩ := (apart_iff hc ho).mp hmajor
  have hwhich : ((Problem.of g c.table shift).record o).major =
      if (Problem.of g c.table shift).Apart o .nonterminal ((Problem.of g c.table shift).least o).toNat
        then .nonterminal else .terminal := rfl
  rw [hm, ENat.toNat_natCast] at hwhich
  refine ⟨⟨⟨hpos, hsize, major, hsep⟩, ?_⟩, ?_, ?_⟩
  · intro j hj
    exact Nat.cast_le.mp (hm ▸ least_le hc ho hj)
  · rw [hwhich]
    split
    · rename_i hn
      exact ((apart_iff hc ho).mp hn).2.2
    · rename_i hn
      cases major with
      | nonterminal => exact absurd hmajor hn
      | terminal => exact hsep
  · intro hn
    rw [hwhich, if_pos ((apart_iff hc ho).mpr ⟨hpos, hsize, hn⟩)]

end Positions

/-- A trial of a compiled grammar fails exactly if two keys have one raw hash. Otherwise it finds a modulus exactly if
one below the bound separates the keys; it is the least of all that separate them, and the nonterminal is the
major symbol wherever it can be. Without a bound there always is one if all raw hashes for one of the major symbols are
below the largest modulus. The stamps may be left over from any tests before. -/
theorem trial_finds_least_separating {g : Grammar} {c : Compiled} (hc : Compiled.compile g = .ok c) {shift : UInt32}
    (hs : shift.toNat < 64) {o : Orders} (ho : o.Permute g) (bound : Option Nat) {stamps : Stamps}
    (hv : stamps.Valid) :
    ((∃ first second, (Problem.of g c.table shift).trial o bound stamps =
        .error (.rawCollision first second shift.toNat)) ↔ ∃ major, o.Clashes c.table shift.toNat major) ∧
    ((¬ ∃ major, o.Clashes c.table shift.toNat major) → ∃ found stamps',
      (Problem.of g c.table shift).trial o bound stamps = .ok (found, stamps') ∧ stamps'.Valid ∧
      (found.isSome ↔ ∃ m ∈ o.separating c.table shift.toNat, ∀ b, bound = some b → m < b) ∧
      (∀ l, found.map ((Problem.of g c.table shift).layout o) = some l →
        IsLeast (o.separating c.table shift.toNat) l.modulus.toNat ∧ (∀ b, bound = some b → l.modulus.toNat < b) ∧
        o.Separates c.table shift.toNat l.major l.modulus.toNat ∧
        (o.Separates c.table shift.toNat .nonterminal l.modulus.toNat → l.major = .nonterminal)) ∧
      (bound = none → (∃ major, ∀ key ∈ c.table.keys, o.hash shift.toNat major key < 2 ^ 32 - 1) → found.isSome)) := by
  have hcollides : (Problem.of g c.table shift).Collides o ↔ ∃ major, o.Clashes c.table shift.toNat major :=
    collides_iff hc ho
  constructor
  · constructor
    · rintro ⟨first, second, herror⟩
      by_contra hno
      obtain ⟨found, stamps', hok, -⟩ := trial_of_not_collides hs (mt hcollides.mp hno) hv bound
      simp [hok] at herror
    · intro hclash
      obtain ⟨first, second, herror⟩ := trial_of_collides hs (hcollides.mpr hclash)
      exact ⟨first, second, herror bound stamps⟩
  · intro hno
    obtain ⟨found, stamps', hok, hvalid, hlayout⟩ := trial_of_not_collides hs (mt hcollides.mp hno) hv bound
    have hfound : found.isSome ↔ (Problem.of g c.table shift).least o < asBound bound := by
      rw [← Option.isSome_map, hlayout]
      split
      · simp [*]
      · simp [*]
    refine ⟨found, stamps', hok, hvalid, hfound.trans (least_lt_iff hc ho), ?_, ?_⟩
    · intro l hl
      rw [hlayout, Option.ite_none_right_eq_some] at hl
      obtain ⟨hlt, hl⟩ := hl
      obtain rfl := Option.some.inj hl
      have hbelow := Hit.lt_asBound.mp (modulus_record hlt ▸ hlt)
      obtain ⟨hleast, hmajor, hprefer⟩ := separates_record hc ho hlt
      exact ⟨hleast, hbelow, hmajor, hprefer⟩
    · rintro rfl ⟨major, hbelow⟩
      have hsep := Orders.separates_of_lt (fun h => hno ⟨major, h⟩) hbelow
      exact hfound.mpr ((least_lt_iff hc ho).mpr ⟨2 ^ 32 - 1, ⟨by decide, le_rfl, major, hsep⟩, by simp⟩)

/-- Two optional letters, in the orders of the grammar. -/
theorem trial_finds_least_optionalPair : ∃ found stamps',
    (Problem.of Draft.optionalPair.grammar Compiled.optionalPair.table 2).trial Draft.optionalPair.grammar.orders none
        {} = .ok (found, stamps') ∧
      ∃ l, found.map ((Problem.of Draft.optionalPair.grammar Compiled.optionalPair.table 2).layout
          Draft.optionalPair.grammar.orders) = some l ∧
        IsLeast (Draft.optionalPair.grammar.orders.separating Compiled.optionalPair.table 2) l.modulus.toNat := by
  have hshift : (2 : UInt32).toNat < 64 := by decide
  obtain ⟨-, hfinds⟩ := trial_finds_least_separating Compiled.compile_optionalPair hshift
    (Orders.permute_orders Draft.optionalPair.grammar) none Stamps.valid_empty
  have hno : ¬ ∃ major, Draft.optionalPair.grammar.orders.Clashes Compiled.optionalPair.table 2 major := by
    rintro ⟨major, hclash⟩
    cases major with
    | nonterminal => exact absurd hclash (by decide +kernel)
    | terminal => exact absurd hclash (by decide +kernel)
  obtain ⟨found, stamps', hok, -, -, hleast, hsome⟩ := hfinds hno
  have hfound := hsome rfl ⟨.nonterminal, by decide +kernel⟩
  obtain ⟨hit, rfl⟩ := Option.isSome_iff_exists.mp hfound
  exact ⟨_, stamps', hok, _, rfl, (hleast _ rfl).1⟩

end Problem

end Predictive
