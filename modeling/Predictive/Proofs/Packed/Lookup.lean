import Predictive.Packed.Basic
import Predictive.Proofs.Layout.Placement

/-!
# Looking up payloads

Payloads are put into the pool one after the other, each behind all those before it (`fill_between`). If their places
are different they are all found there (`fill_placed`), and other places stay empty (`fill_untouched`). So in a packed
table the look-up of two positions finds the payload of the key whose bucket they hit, and nothing if there is none
(`PackedTable.lookup_eq_some`). The positions of a key find its own payload (`PackedTable.lookup_key`).
-/

namespace Predictive.PackedTable

variable {g : Grammar} {table : Table} {l : Layout} {t : PackedTable}

/-! ### Filling buckets -/

theorem fill_untouched {items : List (Nat × List Slot)} {place : Nat} (h : place ∉ items.map Prod.fst)
    (buckets : Array Bucket) (pool : List Slot) :
    (fill items buckets pool).1.getD place {} = buckets.getD place {} := by
  induction items generalizing buckets pool with
  | nil => rfl
  | cons item items ih =>
    obtain ⟨other, payload⟩ := item
    simp only [List.map_cons, List.mem_cons, not_or] at h
    rw [fill, ih h.2]
    simp [Array.getD_eq_getD_getElem?, Ne.symm h.1]

theorem size_fill (items : List (Nat × List Slot)) (buckets : Array Bucket) (pool : List Slot) :
    (fill items buckets pool).1.size = buckets.size := by
  induction items generalizing buckets pool with
  | nil => rfl
  | cons item items ih =>
    rw [fill, ih]
    exact Array.size_setIfInBounds

/-- The pool holds the payloads one after the other. -/
theorem pool_fill (items : List (Nat × List Slot)) (buckets : Array Bucket) (pool : List Slot) :
    (fill items buckets pool).2 = pool ++ items.flatMap Prod.snd := by
  induction items generalizing buckets pool with
  | nil => exact (List.append_nil pool).symm
  | cons item items ih => rw [fill, ih, List.flatMap_cons, List.append_assoc]

/-- The offset of a payload is the length of all those before it. -/
theorem fill_between {before after : List (Nat × List Slot)} {place : Nat} {payload : List Slot}
    (hn : ((before ++ (place, payload) :: after).map Prod.fst).Nodup) {buckets : Array Bucket}
    (hlt : place < buckets.size) (pool : List Slot) :
    (fill (before ++ (place, payload) :: after) buckets pool).1.getD place {} =
      ⟨true, if payload.isEmpty then 0 else (pool ++ before.flatMap Prod.snd).length, payload.length⟩ := by
  induction before generalizing buckets pool with
  | nil =>
    have hafter : place ∉ after.map Prod.fst := (List.nodup_cons.mp hn).1
    rw [List.nil_append, fill, fill_untouched hafter, List.flatMap_nil, List.append_nil]
    simp [Array.getD_eq_getD_getElem?, hlt]
  | cons item before ih =>
    rw [List.cons_append, fill, ih hn.of_cons (by simpa using hlt), List.flatMap_cons, List.append_assoc]

private theorem fill_placed {items : List (Nat × List Slot)} (hn : (items.map Prod.fst).Nodup) {place : Nat}
    {payload : List Slot} (hm : (place, payload) ∈ items) {buckets : Array Bucket} (hlt : place < buckets.size)
    (pool : List Slot) : ∃ offset, (fill items buckets pool).1.getD place {} = ⟨true, offset, payload.length⟩ ∧
      ((fill items buckets pool).2.drop offset).take payload.length = payload := by
  obtain ⟨before, after, rfl⟩ := List.append_of_mem hm
  refine ⟨_, fill_between hn hlt pool, ?_⟩
  rw [pool_fill, List.flatMap_append, List.flatMap_cons, ← List.append_assoc pool]
  cases payload with
  | nil => simp
  | cons x payload => simp

/-! ### Packed tables -/

/-- The payload of a prediction, by positions in the layout. -/
def slots (g : Grammar) (l : Layout) (p : Prediction) : List Slot := (p.payload g).map (slot (.ofNames g l))

/-- The payloads of a table with their buckets. -/
def items (g : Grammar) (table : Table) (l : Layout) : List (Nat × List Slot) :=
  table.entries.map fun (key, p) => (l.keyBucket (.ofNames g l) key, slots g l p)

theorem map_fst_items : (items g table l).map Prod.fst = table.keys.map (l.keyBucket (.ofNames g l)) := by
  rw [items, Table.keys, List.map_map, List.map_map]
  rfl

private theorem mem_items {place : Nat} {payload : List Slot} : (place, payload) ∈ items g table l ↔
    ∃ key p, (key, p) ∈ table.entries ∧ l.keyBucket (.ofNames g l) key = place ∧ payload = slots g l p := by
  simp [items, eq_comm]

/-- The packed table with given names for the symbols. -/
def laidOut (g : Grammar) (table : Table) (l : Layout) (symbols : SymbolNames) : PackedTable :=
  let filled := fill (items g table l) (Array.replicate l.modulus.toNat {}) []
  ⟨symbols, l.modulus, l.shift, l.major, filled.1, filled.2⟩

section Pack

variable (hg : g.WellFormed) (hm : l.modulus ≠ 0) (hs : l.shift.toNat < 64)

include hg hm hs

/-- A table is packed if the layout was made for its grammar and fits it, its symbols have names, and no two keys share
a bucket. -/
theorem pack_eq_ok : pack g table l = .ok t ↔ l.checkFingerprint g = .ok () ∧ l.Fits g ∧
    (table.keys.map (l.keyBucket (.ofNames g l))).Nodup ∧
    ∃ symbols, SymbolNames.ofLayout l = .ok symbols ∧ t = laidOut g table l symbols := by
  have hzip : (table.keys.map (l.keyBucket (.ofNames g l))).zip (table.entries.map fun (_, p) =>
      (p.payload g).map (slot (.ofNames g l))) = items g table l := by
    rw [Table.keys, List.map_map, List.zip_map']
    rfl
  simp only [pack, bind_eq_ok, Numbering.resolve_eq_ok hg, Layout.buckets_eq_ok hm hs, pure, Except.pure,
    Except.ok.injEq]
  constructor
  · rintro ⟨_, hf, num, ⟨hfits, rfl⟩, symbols, hsymbols, places, ⟨rfl, hnodup⟩, rfl⟩
    refine ⟨hf, hfits, hnodup, symbols, hsymbols, ?_⟩
    rw [hzip, laidOut]
  · rintro ⟨hf, hfits, hnodup, symbols, hsymbols, rfl⟩
    refine ⟨(), hf, _, ⟨hfits, rfl⟩, symbols, hsymbols, _, ⟨rfl, hnodup⟩, ?_⟩
    rw [hzip, laidOut]

variable (hp : pack g table l = .ok t)

include hp

theorem fits_of_pack : l.Fits g := ((pack_eq_ok hg hm hs).mp hp).2.1

theorem lookup_eq_some_iff_mem_items {i j : Nat} {payload : List Slot} :
    t.lookup i j = some payload ↔ (l.bucket i j, payload) ∈ items g table l := by
  obtain ⟨-, -, hnodup, symbols, -, rfl⟩ := (pack_eq_ok hg hm hs).mp hp
  rw [← map_fst_items] at hnodup
  have hmod : l.bucket i j < l.modulus.toNat := Layout.bucket_lt hm i j
  have hlt : l.bucket i j < (Array.replicate l.modulus.toNat ({} : Bucket)).size := by simpa using hmod
  have hbucket : (laidOut g table l symbols).bucket i j =
      (fill (items g table l) (Array.replicate l.modulus.toNat {}) []).1.getD (l.bucket i j) {} := rfl
  rw [lookup, hbucket]
  constructor
  · intro h
    have hmem : l.bucket i j ∈ (items g table l).map Prod.fst := by
      refine Classical.byContradiction fun hnot => ?_
      simp [fill_untouched hnot, Array.getD_eq_getD_getElem?, hmod] at h
    obtain ⟨⟨place, found⟩, hitem, rfl⟩ := List.mem_map.mp hmem
    obtain ⟨offset, hget, hpool⟩ := fill_placed hnodup hitem hlt []
    rw [hget] at h
    have hfound : found = payload := by simpa [PackedTable.payload, laidOut, hpool] using h
    exact hfound ▸ hitem
  · intro hitem
    obtain ⟨offset, hget, hpool⟩ := fill_placed hnodup hitem hlt []
    rw [hget]
    simp [PackedTable.payload, laidOut, hpool]

/-- A look-up finds the payload of the key whose bucket it hits. -/
theorem lookup_eq_some {i j : Nat} {payload : List Slot} : t.lookup i j = some payload ↔
    ∃ key p, (key, p) ∈ table.entries ∧ l.keyBucket (.ofNames g l) key = l.bucket i j ∧ payload = slots g l p := by
  rw [lookup_eq_some_iff_mem_items hg hm hs hp, mem_items]

/-- The positions of a key find its payload. -/
theorem lookup_key {key : Key} {p : Prediction} (hkey : (key, p) ∈ table.entries) :
    t.lookup ((Numbering.ofNames g l).nonterminalAt key.1) ((Numbering.ofNames g l).terminalAt key.2) =
      some (slots g l p) :=
  (lookup_eq_some hg hm hs hp).mpr ⟨key, p, hkey, rfl, rfl⟩

end Pack

end Predictive.PackedTable
