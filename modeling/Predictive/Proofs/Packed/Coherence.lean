import Predictive.Proofs.Packed.Identifier
import Predictive.Proofs.Packed.Lookup
import Predictive.Proofs.Packed.Recognition

/-!
# What holds of every packed table

The parts of a packed table fit together (`PackedTable.Coherent`): there is a bucket for every index, what a bucket
says lies in the pool, the pool holds positions of symbols, and the symbols have names. Tables of grammars are packed
into such ones (`PackedTable.coherent_of_pack`).
-/

namespace Predictive.PackedTable

/-- The parts of a packed table fit together. -/
structure Coherent (t : PackedTable) : Prop where
  modulus_pos : 0 < t.modulus.toNat
  size_eq : t.buckets.size = t.modulus.toNat
  bounded : ∀ b ∈ t.buckets, b.offset + b.length ≤ t.pool.length
  empty : ∀ b ∈ t.buckets, b.valid = false → b = {}
  nonterminal_lt : ∀ i, .nonterminal i ∈ t.pool → i < t.symbols.nonterminals.length
  terminal_lt : ∀ i, .terminal i ∈ t.pool → i < t.symbols.terminals.length
  nonterminalNames : t.symbols.nonterminalNames = t.symbols.nonterminals.map identifier
  terminalNames : t.symbols.terminalNames = t.symbols.terminals.map identifier
  nameable_nonterminals : Nameable t.symbols.nonterminals
  nameable_terminals : Nameable t.symbols.terminals

/-! ### Filling buckets -/

/-- What a bucket says lies in a pool of a size, and a bucket that is not valid says nothing. -/
private def Bucket.Within (size : Nat) (b : Bucket) : Prop :=
  b.offset + b.length ≤ size ∧ (b.valid = false → b = {})

private theorem within_fill {items : List (Nat × List Slot)} {buckets : Array Bucket} {pool : List Slot}
    (h : ∀ b ∈ buckets, Bucket.Within pool.length b) :
    ∀ b ∈ (fill items buckets pool).1, Bucket.Within (fill items buckets pool).2.length b := by
  induction items generalizing buckets pool with
  | nil => exact h
  | cons item items ih =>
    obtain ⟨place, payload⟩ := item
    refine ih fun b hb => ?_
    rw [List.length_append]
    rcases Array.mem_or_eq_of_mem_setIfInBounds hb with hold | rfl
    · obtain ⟨hle, hempty⟩ := h b hold
      exact ⟨by omega, hempty⟩
    · refine ⟨?_, by simp⟩
      cases payload with
      | nil => simp
      | cons x payload => simp

/-! ### Packed tables -/

variable {g : Grammar} {c : Compiled} {table : Table} {l : Layout} {t : PackedTable}

theorem shift_of_pack (hp : pack g table l = .ok t) : t.shift = l.shift := by
  simp only [pack, bind_eq_ok, pure, Except.pure, Except.ok.injEq] at hp
  obtain ⟨_, -, _, -, _, -, _, -, rfl⟩ := hp
  rfl

theorem displays_of_pack (hp : pack g table l = .ok t) :
    t.symbols.terminals = l.terminals ∧ t.symbols.nonterminals = l.nonterminals := by
  simp only [pack, bind_eq_ok, pure, Except.pure, Except.ok.injEq] at hp
  obtain ⟨_, -, _, -, symbols, hsymbols, _, -, rfl⟩ := hp
  exact SymbolNames.displays_of_ofLayout hsymbols

/-- A table with entries is packed under a positive modulus only. -/
private theorem modulus_ne_zero_of_pack (hkeys : table.keys ≠ []) (hp : pack g table l = .ok t) : l.modulus ≠ 0 := by
  intro hm
  simp only [pack, bind_eq_ok] at hp
  obtain ⟨_, -, _, -, _, -, _, hbuckets, -⟩ := hp
  simp [Layout.buckets, hkeys, hm] at hbuckets

theorem inRange_payload (hg : g.WellFormed) (p : Prediction) : ∀ x ∈ p.payload g, g.InRange x := by
  cases p with
  | vanish => simp [Prediction.payload]
  | expand id =>
    show ∀ x ∈ g.rhsOf id, g.InRange x
    unfold Grammar.rhsOf
    cases hid : g.productions[id]? with
    | none => simp
    | some p => exact hg.inRange_rhs (List.mem_of_getElem? hid)

private theorem mem_slots (hg : g.WellFormed) {p : Prediction} {slot : Slot} (h : slot ∈ slots g l p) :
    ∃ x, g.InRange x ∧ slot = PackedTable.slot (.ofNames g l) x := by
  obtain ⟨x, hx, rfl⟩ := List.mem_map.mp h
  exact ⟨x, inRange_payload hg p x hx, rfl⟩

theorem coherent_of_pack (hg : g.WellFormed) (hc : Compiled.compile g = .ok c) (hs : l.shift.toNat < 64)
    (hp : pack g c.table l = .ok t) : t.Coherent := by
  have hkeys : c.table.keys ≠ [] := by
    obtain ⟨x, symbols, hpred⟩ := Compiled.exists_predictor_start hg hc
    exact List.ne_nil_of_mem ((mem_keys_iff hc).mpr (Option.isSome_of_eq_some hpred))
  have hm := modulus_ne_zero_of_pack hkeys hp
  obtain ⟨-, hfits, -, symbols, hsymbols, rfl⟩ := (pack_eq_ok hg hm hs).mp hp
  have hwithin : ∀ b ∈ Array.replicate l.modulus.toNat ({} : Bucket), Bucket.Within ([] : List Slot).length b := by
    intro b hb
    obtain rfl := Array.eq_of_mem_replicate hb
    exact ⟨Nat.le_refl 0, fun _ => rfl⟩
  have hpool : ∀ slot ∈ (laidOut g c.table l symbols).pool,
      ∃ x, g.InRange x ∧ slot = PackedTable.slot (.ofNames g l) x := by
    intro slot hslot
    simp only [laidOut, pool_fill, List.nil_append, List.mem_flatMap, items, List.mem_map] at hslot
    obtain ⟨_, ⟨entry, -, rfl⟩, hmem⟩ := hslot
    exact mem_slots hg hmem
  simp only [SymbolNames.ofLayout, bind_eq_ok, identifiers_eq_ok, pure, Except.pure, Except.ok.injEq] at hsymbols
  obtain ⟨_, ⟨rfl, hterminals⟩, _, ⟨rfl, hnonterminals⟩, rfl⟩ := hsymbols
  exact {
    modulus_pos := Layout.modulus_pos hm
    size_eq := by simp [laidOut, size_fill]
    bounded := fun b hb => (within_fill hwithin b hb).1
    empty := fun b hb => (within_fill hwithin b hb).2
    nonterminal_lt := by
      intro i hi
      obtain ⟨x, hx, heq⟩ := hpool _ hi
      cases x with
      | terminal y => simp [slot] at heq
      | nonterminal n =>
        obtain rfl : i = (Numbering.ofNames g l).nonterminalAt n := by simpa [slot] using heq
        exact hfits.nonterminalAt_lt hx
    terminal_lt := by
      intro i hi
      obtain ⟨x, hx, heq⟩ := hpool _ hi
      cases x with
      | terminal y =>
        obtain rfl : i = (Numbering.ofNames g l).terminalAt y := by simpa [slot] using heq
        exact hfits.terminalAt_lt hx
      | nonterminal n => simp [slot] at heq
    nonterminalNames := rfl
    terminalNames := rfl
    nameable_nonterminals := hnonterminals
    nameable_terminals := hterminals }

namespace Coherent

variable (h : t.Coherent)

include h

theorem index_lt (nt term : Nat) : t.index nt term < t.buckets.size := by
  rw [h.size_eq]
  exact Nat.mod_lt _ h.modulus_pos

theorem getElem?_index (nt term : Nat) : t.buckets[t.index nt term]? = some (t.bucket nt term) := by
  have hlt := h.index_lt nt term
  rw [bucket, Array.getD_eq_getD_getElem?, Array.getElem?_eq_getElem hlt]
  rfl

end Coherent

end Predictive.PackedTable
