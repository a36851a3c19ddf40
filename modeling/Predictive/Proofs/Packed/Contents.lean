import Predictive.Proofs.Packed.Coherence

/-!
# What a packed table holds

Each key of a prediction table owns the bucket that its positions hit, and no other key does. Whatever two positions are
looked up, the table gives the payload of the key that owns their bucket, and nothing if none does. The pool is made of
the payloads, every slot of it in the one bucket whose payload it belongs to (`PackedTable.Stores`). All this holds of
every table that was packed for a grammar (`PackedTable.stores_table`).
-/

namespace Predictive.PackedTable

/-! ### Filling buckets -/

section Filling

variable {items before after before' after' : List (Nat × List Slot)} {x x' : Nat × List Slot}

private theorem getD_empty (m i : Nat) : (Array.replicate m ({} : Bucket)).getD i {} = {} := by
  rw [Array.getD_eq_getD_getElem?, Array.getElem?_replicate]
  split <;> rfl

/-- Items with places of their own, none of them in use, take one bucket each. -/
private theorem countP_fill (hn : (items.map Prod.fst).Nodup) {buckets : Array Bucket}
    (hlt : ∀ place ∈ items.map Prod.fst, place < buckets.size)
    (hfree : ∀ place ∈ items.map Prod.fst, (buckets.getD place {}).valid = false) (pool : List Slot) :
    (fill items buckets pool).1.countP (·.valid) = buckets.countP (·.valid) + items.length := by
  induction items generalizing buckets pool with
  | nil => rfl
  | cons item items ih =>
    obtain ⟨place, payload⟩ := item
    rw [List.map_cons, List.nodup_cons] at hn
    have hplace : place < buckets.size := hlt place List.mem_cons_self
    have hunused : buckets[place].valid = false := by
      simpa [Array.getD_eq_getD_getElem?, hplace] using hfree place List.mem_cons_self
    have hothers : ∀ other ∈ items.map Prod.fst, other ≠ place := by
      rintro other hother rfl
      exact hn.1 hother
    rw [fill, ih hn.2]
    · rw [Array.setIfInBounds_def, dif_pos hplace, Array.countP_set hplace, hunused, List.length_cons]
      simp only [Bool.false_eq_true, if_false, if_true]
      omega
    · intro other hother
      simpa using hlt other (List.mem_cons_of_mem place hother)
    · intro other hother
      have hkeep := hfree other (List.mem_cons_of_mem place hother)
      rw [Array.getD_eq_getD_getElem?] at hkeep ⊢
      rwa [Array.getElem?_setIfInBounds_ne (hothers other hother).symm]

/-- A slot of the pool lies in the payload of an item. -/
private theorem exists_item_around {k : Nat} (hk : k < (items.flatMap Prod.snd).length) :
    ∃ before x after, items = before ++ x :: after ∧ (before.flatMap Prod.snd).length ≤ k ∧
      k < (before.flatMap Prod.snd).length + x.2.length := by
  induction items generalizing k with
  | nil => simp at hk
  | cons x items ih =>
    rw [List.flatMap_cons, List.length_append] at hk
    by_cases hfirst : k < x.2.length
    · exact ⟨[], x, items, rfl, Nat.zero_le k, by simpa using hfirst⟩
    · obtain ⟨before, y, after, rfl, hle, hlt⟩ := ih (k := k - x.2.length) (by omega)
      refine ⟨x :: before, y, after, rfl, ?_, ?_⟩ <;> rw [List.flatMap_cons, List.length_append] <;> omega

private theorem item_around_unique (h : before ++ x :: after = before' ++ x' :: after') {k : Nat}
    (hle : (before.flatMap Prod.snd).length ≤ k) (hlt : k < (before.flatMap Prod.snd).length + x.2.length)
    (hle' : (before'.flatMap Prod.snd).length ≤ k) (hlt' : k < (before'.flatMap Prod.snd).length + x'.2.length) :
    x = x' := by
  -- an item before the other one ends before it
  rcases List.append_eq_append_iff.mp h with ⟨_ | ⟨y, between⟩, rfl, heq⟩ | ⟨_ | ⟨y, between⟩, rfl, heq⟩
  · exact (List.cons.inj heq).1
  · obtain ⟨rfl, -⟩ := List.cons.inj heq
    rw [List.flatMap_append, List.flatMap_cons, List.length_append, List.length_append] at hle'
    omega
  · exact (List.cons.inj heq).1.symm
  · obtain ⟨rfl, -⟩ := List.cons.inj heq
    rw [List.flatMap_append, List.flatMap_cons, List.length_append, List.length_append] at hle
    omega

end Filling

/-! ### What is stored -/

variable {g : Grammar} {table : Table} {l : Layout} {t : PackedTable}

/-- The position of a nonterminal of a grammar. -/
def nonterminalAt (t : PackedTable) (g : Grammar) (n : Nonterminal) : Nat :=
  t.symbols.nonterminals.idxOf (g.nonterminalName n)

/-- The position of a terminal of a grammar. -/
def terminalAt (t : PackedTable) (g : Grammar) (x : Terminal) : Nat := t.symbols.terminals.idxOf (g.terminalName x)

/-- A symbol of a grammar by position. -/
def slotOf (t : PackedTable) (g : Grammar) : Symbol → Slot
  | .nonterminal n => .nonterminal (t.nonterminalAt g n)
  | .terminal x => .terminal (t.terminalAt g x)

/-- The bucket that a key owns. -/
def keyIndex (t : PackedTable) (g : Grammar) (key : Key) : Nat :=
  t.index (t.nonterminalAt g key.1) (t.terminalAt g key.2)

/-- The bucket at an index is valid, and a slot of the pool belongs to its payload. -/
def Holds (t : PackedTable) (i k : Nat) : Prop :=
  ∃ b, t.buckets[i]? = some b ∧ b.valid = true ∧ b.offset ≤ k ∧ k < b.offset + b.length

/-- A look-up in numbers of 64 bits, that fails if a number does not fit, or if there is no such bucket or no such part
of the pool. -/
def lookup? (t : PackedTable) (nt term : UInt32) : Option (Option (List Slot)) :=
  if t.shift.toNat < 64 ∧ rawHash t.major t.shift.toNat nt.toNat term.toNat < UInt64.size ∧ t.modulus ≠ 0 then do
    let b ← t.buckets[t.index nt.toNat term.toNat]?
    if !b.valid then some none
    else if b.offset + b.length ≤ t.pool.length then some (some (t.payload b))
    else none
  else none

/-- A packed table stores a prediction table: a look-up does not fail, it finds the payload of the key that owns the
bucket, and nothing where there is no such key. The pool has no room for anything else. -/
structure Stores (t : PackedTable) (g : Grammar) (table : Table) : Prop where
  nonterminal? : ∀ n < g.nonterminals.length, t.symbols.nonterminal? (g.nonterminalName n) = some (t.nonterminalAt g n)
  terminal? : ∀ x < g.terminals.length, t.symbols.terminal? (g.terminalName x) = some (t.terminalAt g x)
  small : ∀ b ∈ t.buckets, b.offset < UInt32.size ∧ b.length < UInt32.size
  owners : (table.keys.map (t.keyIndex g)).Nodup
  lookup_ok : ∀ nt term : UInt32, t.lookup? nt term = some (t.lookup nt.toNat term.toNat)
  lookup_key : ∀ n x p, table.get? n x = some p →
    t.lookup (t.nonterminalAt g n) (t.terminalAt g x) = some ((p.payload g).map (t.slotOf g))
  lookup_owned : ∀ i j n x p, table.get? n x = some p → t.keyIndex g (n, x) = t.index i j →
    t.lookup i j = some ((p.payload g).map (t.slotOf g))
  lookup_free : ∀ i j, (∀ key ∈ table.keys, t.keyIndex g key ≠ t.index i j) → t.lookup i j = none
  size_buckets : t.buckets.size = t.modulus.toNat
  validBuckets_eq : t.validBuckets = table.size
  length_pool : t.pool.length = table.symbolSlots g
  holds_unique : ∀ i i' k, t.Holds i k → t.Holds i' k → i = i'
  holds_some : ∀ k, (∃ i, t.Holds i k) ↔ k < t.pool.length

theorem Coherent.lookup?_eq (h : t.Coherent) (hs : t.shift.toNat < 64) (nt term : UInt32) :
    t.lookup? nt term = some (t.lookup nt.toNat term.toNat) := by
  have hm : t.modulus ≠ 0 := fun hzero => absurd h.modulus_pos (by simp [hzero])
  have hraw := rawHash_lt t.major nt.toNat_lt term.toNat_lt hs
  have hget := h.getElem?_index nt.toNat term.toNat
  have hbounded := h.bounded _ (Array.mem_of_getElem? hget)
  rw [lookup?, if_pos ⟨hs, hraw, hm⟩, hget, lookup]
  simp only [Option.bind_eq_bind, Option.bind_some, if_pos hbounded]
  cases (t.bucket nt.toNat term.toNat).valid <;> rfl

/-! ### Positions -/

private theorem nonterminalAt_eq (hp : pack g table l = .ok t) {n : Nonterminal} (hn : n < g.nonterminals.length) :
    t.nonterminalAt g n = (Numbering.ofNames g l).nonterminalAt n := by
  rw [Numbering.nonterminalAt_ofNames hn, nonterminalAt, (displays_of_pack hp).2]

private theorem terminalAt_eq (hp : pack g table l = .ok t) {x : Terminal} (hx : x < g.terminals.length) :
    t.terminalAt g x = (Numbering.ofNames g l).terminalAt x := by
  rw [Numbering.terminalAt_ofNames hx, terminalAt, (displays_of_pack hp).1]

private theorem map_slotOf (hg : g.WellFormed) (hp : pack g table l = .ok t) (p : Prediction) :
    (p.payload g).map (t.slotOf g) = slots g l p := by
  refine List.map_congr_left fun x hx => ?_
  have hrange := inRange_payload hg p x hx
  cases x with
  | nonterminal n => rw [slotOf, slot, nonterminalAt_eq hp hrange]
  | terminal x => rw [slotOf, slot, terminalAt_eq hp hrange]

/-! ### Packed tables -/

section Packed

variable (hg : g.WellFormed) (hm : l.modulus ≠ 0) (hs : l.shift.toNat < 64) (hp : pack g table l = .ok t)

include hg hm hs hp

private theorem items_of_pack : ((items g table l).map Prod.fst).Nodup ∧
    (∀ place ∈ (items g table l).map Prod.fst, place < (Array.replicate l.modulus.toNat ({} : Bucket)).size) ∧
    fill (items g table l) (Array.replicate l.modulus.toNat {}) [] = (t.buckets, t.pool) := by
  obtain ⟨-, -, hnodup, symbols, -, rfl⟩ := (pack_eq_ok hg hm hs).mp hp
  rw [map_fst_items]
  refine ⟨hnodup, ?_, rfl⟩
  intro place hplace
  obtain ⟨key, -, rfl⟩ := List.mem_map.mp hplace
  rw [Array.size_replicate]
  exact Layout.bucket_lt hm _ _

private theorem pool_of_pack : t.pool = (items g table l).flatMap Prod.snd := by
  have hpool := pool_fill (items g table l) (Array.replicate l.modulus.toNat {}) []
  rwa [(items_of_pack hg hm hs hp).2.2, List.nil_append] at hpool

theorem length_pool_of_pack : t.pool.length = table.symbolSlots g := by
  simp [pool_of_pack hg hm hs hp, Table.symbolSlots, items, slots, List.length_flatMap, Function.comp_def]

theorem validBuckets_of_pack : t.validBuckets = table.size := by
  obtain ⟨hnodup, hlt, hfill⟩ := items_of_pack hg hm hs hp
  have hcount : t.buckets.countP (·.valid) =
      (Array.replicate l.modulus.toNat ({} : Bucket)).countP (·.valid) + (items g table l).length := by
    have hfilled := countP_fill hnodup hlt (fun place _ => by rw [getD_empty]) []
    rwa [hfill] at hfilled
  rw [validBuckets, ← List.countP_eq_length_filter, Array.countP_toList, hcount, items, List.length_map, Table.size]
  simp

/-- The bucket of an item says where its payload stands in the pool. -/
private theorem getElem?_of_items {before after : List (Nat × List Slot)} {i : Nat} {payload : List Slot}
    (heq : items g table l = before ++ (i, payload) :: after) : t.buckets[i]? =
      some ⟨true, if payload.isEmpty then 0 else (before.flatMap Prod.snd).length, payload.length⟩ := by
  obtain ⟨hnodup, hlt, hfill⟩ := items_of_pack hg hm hs hp
  have hi := hlt i (by simp [heq])
  have hsize := size_fill (items g table l) (Array.replicate l.modulus.toNat {}) []
  rw [hfill] at hsize
  have hget : t.buckets.getD i {} =
      ⟨true, if payload.isEmpty then 0 else (before.flatMap Prod.snd).length, payload.length⟩ := by
    have hfilled := fill_between (heq ▸ hnodup) hi []
    rwa [← heq, hfill, List.nil_append] at hfilled
  rw [← hsize] at hi
  rw [Array.getElem?_eq_getElem hi, ← hget, Array.getD_eq_getD_getElem?, Array.getElem?_eq_getElem hi, Option.getD_some]

/-- The slots of a bucket are those of the item that was put there. -/
private theorem holds_iff {i k : Nat} : t.Holds i k ↔ ∃ before payload after,
    items g table l = before ++ (i, payload) :: after ∧ (before.flatMap Prod.snd).length ≤ k ∧
      k < (before.flatMap Prod.snd).length + payload.length := by
  have hplaced := @getElem?_of_items g table l t hg hm hs hp
  constructor
  · rintro ⟨b, hget, hvalid, hle, hlt⟩
    have hmem : i ∈ (items g table l).map Prod.fst := by
      by_contra hnot
      have hkeep := fill_untouched hnot (Array.replicate l.modulus.toNat {}) []
      rw [(items_of_pack hg hm hs hp).2.2, getD_empty, Array.getD_eq_getD_getElem?, hget, Option.getD_some] at hkeep
      rw [hkeep] at hvalid
      exact Bool.false_ne_true hvalid
    obtain ⟨⟨_, payload⟩, hitem, rfl⟩ := List.mem_map.mp hmem
    obtain ⟨before, after, heq⟩ := List.append_of_mem hitem
    obtain rfl := Option.some.inj (hget.symm.trans (hplaced heq))
    refine ⟨before, payload, after, heq, ?_⟩
    cases payload with
    | nil => simp at hlt
    | cons x payload => exact ⟨hle, hlt⟩
  · rintro ⟨before, payload, after, heq, hle, hlt⟩
    refine ⟨_, hplaced heq, rfl, ?_⟩
    cases payload with
    | nil => exact absurd hlt (by simpa using hle)
    | cons x payload => exact ⟨hle, hlt⟩

theorem holds_unique_of_pack {i i' k : Nat} (h : t.Holds i k) (h' : t.Holds i' k) : i = i' := by
  obtain ⟨before, payload, after, heq, hle, hlt⟩ := (holds_iff hg hm hs hp).mp h
  obtain ⟨before', payload', after', heq', hle', hlt'⟩ := (holds_iff hg hm hs hp).mp h'
  exact congrArg Prod.fst (item_around_unique (heq.symm.trans heq') hle hlt hle' hlt')

theorem exists_holds_iff {k : Nat} : (∃ i, t.Holds i k) ↔ k < t.pool.length := by
  rw [pool_of_pack hg hm hs hp]
  constructor
  · rintro ⟨i, h⟩
    obtain ⟨before, payload, after, heq, -, hlt⟩ := (holds_iff hg hm hs hp).mp h
    simp only [heq, List.flatMap_append, List.flatMap_cons, List.length_append]
    omega
  · intro hk
    obtain ⟨before, ⟨i, payload⟩, after, heq, hle, hlt⟩ := exists_item_around hk
    exact ⟨i, (holds_iff hg hm hs hp).mpr ⟨before, payload, after, heq, hle, hlt⟩⟩

private theorem index_eq (i j : Nat) : t.index i j = l.bucket i j := by
  obtain ⟨-, -, -, symbols, -, rfl⟩ := (pack_eq_ok hg hm hs).mp hp
  rfl

variable {a : Analysis} (hbuild : Table.build g a = .ok table)

include hbuild

private theorem keyIndex_eq : ∀ key ∈ table.keys, t.keyIndex g key = l.keyBucket (.ofNames g l) key := by
  intro key hkey
  obtain ⟨hn, hx⟩ := Table.key_lt hbuild hkey
  rw [keyIndex, index_eq hg hm hs hp, nonterminalAt_eq hp hn, terminalAt_eq hp hx, Layout.keyBucket]

theorem nodup_keyIndex : (table.keys.map (t.keyIndex g)).Nodup := by
  rw [List.map_congr_left (keyIndex_eq hg hm hs hp hbuild)]
  exact ((pack_eq_ok hg hm hs).mp hp).2.2.1

theorem lookup_of_keyIndex_eq {i j : Nat} {n : Nonterminal} {x : Terminal} {p : Prediction}
    (hget : table.get? n x = some p) (h : t.keyIndex g (n, x) = t.index i j) :
    t.lookup i j = some ((p.payload g).map (t.slotOf g)) := by
  have hentry : ((n, x), p) ∈ table.entries := (lookup_eq_some_iff_mem (Table.nodup_keys hbuild)).mp hget
  have hkey : (n, x) ∈ table.keys := List.mem_map_of_mem hentry
  rw [keyIndex_eq hg hm hs hp hbuild _ hkey, index_eq hg hm hs hp] at h
  exact (lookup_eq_some hg hm hs hp).mpr ⟨(n, x), p, hentry, h, map_slotOf hg hp p⟩

theorem lookup_of_keyIndex_ne {i j : Nat} (h : ∀ key ∈ table.keys, t.keyIndex g key ≠ t.index i j) :
    t.lookup i j = none := by
  refine Option.eq_none_iff_forall_ne_some.mpr fun payload hsome => ?_
  obtain ⟨key, p, hentry, heq, -⟩ := (lookup_eq_some hg hm hs hp).mp hsome
  have hkey : key ∈ table.keys := List.mem_map_of_mem hentry
  exact h key hkey (by rw [keyIndex_eq hg hm hs hp hbuild key hkey, heq, index_eq hg hm hs hp])

end Packed

/-- A table that is packed for a grammar, with pool positions of 32 bits, is stored. -/
theorem stores_table {d : Draft} {c : Compiled} (hb : d.build = .ok g) (hc : Compiled.compile g = .ok c)
    (hpos : 1 ≤ l.modulus.toNat) (hs : l.shift.toNat < 64) (hslots : c.table.symbolSlots g < UInt32.size)
    (hp : pack g c.table l = .ok t) :
    t.symbols.nonterminals = l.nonterminals ∧ t.symbols.terminals = l.terminals ∧ t.modulus = l.modulus ∧
      t.Stores g c.table := by
  obtain ⟨hlegal, rfl⟩ := Draft.build_eq_ok.mp hb
  have hg := hlegal.wellFormed
  have hm := Layout.modulus_ne_zero hpos
  have hbuild := Compiled.build_of_compile hc
  have hcoherent := coherent_of_pack hg hc hs hp
  have hfits := fits_of_pack hg hm hs hp
  have hlength := length_pool_of_pack hg hm hs hp
  have hmodulus : t.modulus = l.modulus := by
    obtain ⟨-, -, -, symbols, -, rfl⟩ := (pack_eq_ok hg hm hs).mp hp
    rfl
  obtain ⟨hterminals, hnonterminals⟩ := displays_of_pack hp
  exact ⟨hnonterminals, hterminals, hmodulus, {
    nonterminal? := fun n hn => idxOf?_of_mem (hnonterminals ▸ hfits.nonterminals.mem_iff.mpr (getD_mem hn ""))
    terminal? := fun x hx => idxOf?_of_mem (hterminals ▸ hfits.terminals.mem_iff.mpr (getD_mem hx ""))
    small := by
      intro b hmem
      have hle := hcoherent.bounded b hmem
      constructor <;> omega
    owners := nodup_keyIndex hg hm hs hp hbuild
    lookup_ok := hcoherent.lookup?_eq (shift_of_pack hp ▸ hs)
    lookup_key := fun n x p hget => lookup_of_keyIndex_eq hg hm hs hp hbuild hget rfl
    lookup_owned := fun i j n x p => lookup_of_keyIndex_eq hg hm hs hp hbuild
    lookup_free := fun i j => lookup_of_keyIndex_ne hg hm hs hp hbuild
    size_buckets := hcoherent.size_eq
    validBuckets_eq := validBuckets_of_pack hg hm hs hp
    length_pool := hlength
    holds_unique := fun i i' k => holds_unique_of_pack hg hm hs hp
    holds_some := fun k => exists_holds_iff hg hm hs hp }⟩

theorem stores_table_optionalPair : Compiled.optionalPair.table.symbolSlots Draft.optionalPair.grammar < UInt32.size ∧
    ∃ t, pack Draft.optionalPair.grammar Compiled.optionalPair.table Layout.optionalPair = .ok t ∧
      t.Stores Draft.optionalPair.grammar Compiled.optionalPair.table := by
  obtain ⟨t, ht⟩ := exists_pack_optionalPair
  have hslots : Compiled.optionalPair.table.symbolSlots Draft.optionalPair.grammar < UInt32.size := by decide +kernel
  exact ⟨hslots, t, ht, (stores_table Draft.build_optionalPair Compiled.compile_optionalPair (by decide) (by decide)
    hslots ht).2.2.2⟩

end Predictive.PackedTable
