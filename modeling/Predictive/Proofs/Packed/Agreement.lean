import Predictive.Proofs.Packed.Identifier
import Predictive.Proofs.Packed.Recognition

/-!
# Checking and packing agree

A layout is checked against a table by placing the keys, with a map from buckets to the keys that have them. A table is
packed in one pass, in which each key takes its bucket in a vector of owners while the buckets and the pool are filled
(`PackedTable.packAtOnce`). As long as no bucket is taken twice the vector holds what the map holds, so the pass stops
at the same key, and otherwise fills what can be filled afterwards (`PackedTable.pack_eq_packAtOnce`).

So a layout that names its symbols packs a table exactly if it passes the check, and the two fail with the same error
(`PackedTable.packs_exactly_verified`): either the symbols are not those of the grammar, or the error tells the first
key whose bucket is taken and the only key before it in that bucket. Keys with one raw hash share a bucket under every
modulus, so a collision of raw hashes is one of buckets, whatever the modulus is.
-/

namespace Predictive

/-! ### Packing in one pass -/

namespace PackedTable

/-- What has been laid out: the key that has each bucket, the buckets, and the pool. -/
structure Laying where
  owners : Array (Option Key)
  buckets : Array Bucket
  pool : List Slot

/-- No key has a bucket. -/
def Laying.start (l : Layout) : Laying :=
  ⟨Array.replicate l.modulus.toNat none, Array.replicate l.modulus.toNat {}, []⟩

/-- Takes a bucket for a key, and puts its payload behind the pool. -/
def Laying.put (s : Laying) (place : Nat) (key : Key) (payload : List Slot) : Laying where
  owners := s.owners.setIfInBounds place (some key)
  buckets := s.buckets.setIfInBounds place
    ⟨true, if payload.isEmpty then 0 else s.pool.length, payload.length⟩
  pool := s.pool ++ payload

/-- Lays out the entries one by one. The bucket of a key must be there, and be free. -/
def lay (l : Layout) (g : Grammar) (num : Numbering) : Laying → List (Key × Prediction) → Except Error Laying
  | s, [] => .ok s
  | s, (key, p) :: rest =>
    let place := l.keyBucket num key
    match s.owners[place]? with
    | none => .error .arithmetic
    | some (some owner) => .error (.bucketCollision place (g.keyName owner.1 owner.2) (g.keyName key.1 key.2))
    | some none => lay l g num (s.put place key ((p.payload g).map (slot num))) rest

/-- Lays a table out in one pass. -/
def packAtOnce (g : Grammar) (table : Table) (l : Layout) : Except Error PackedTable := do
  l.checkFingerprint g
  let num ← Numbering.resolve g l
  let symbols ← SymbolNames.ofLayout l
  let s ← lay l g num (.start l) table.entries
  return ⟨symbols, l.modulus, l.shift, l.major, s.buckets, s.pool⟩

variable {g : Grammar} {table : Table} {l : Layout} {num : Numbering}

/-- The vector has all buckets, with the owners that the map tells. -/
private def Laying.Owned (s : Laying) (l : Layout) (owners : List (Nat × Key)) : Prop :=
  ∀ place < l.modulus.toNat, s.owners[place]? = some (owners.lookup place)

private theorem Laying.owned_start : (Laying.start l).Owned l [] := by
  intro place hplace
  simp [Laying.start, hplace]

/-- A key that takes a bucket is put on the map. -/
private theorem Laying.Owned.put {s : Laying} {owners : List (Nat × Key)} (h : s.Owned l owners) {place : Nat}
    (hlt : place < l.modulus.toNat) (key : Key) (payload : List Slot) :
    (s.put place key payload).Owned l ((place, key) :: owners) := by
  intro other hother
  obtain ⟨hroom, -⟩ := Array.getElem?_eq_some_iff.mp (h place hlt)
  rw [Laying.put, Array.getElem?_setIfInBounds, List.lookup_cons]
  by_cases heq : place = other
  · subst heq
    simp [hroom]
  · rw [if_neg heq, beq_false_of_ne (Ne.symm heq)]
    exact h other hother

/-- The pass stops where the keys cannot be placed, and otherwise fills their places. -/
private theorem lay_eq (hm : l.modulus ≠ 0) (entries : List (Key × Prediction)) {s : Laying}
    {owners : List (Nat × Key)} (h : s.Owned l owners) :
    (lay l g num s entries).map (fun s => (s.buckets, s.pool)) =
      match placeFrom (l.keyBucket num) owners (entries.map Prod.fst) with
      | .ok places => .ok
          (fill (places.zip (entries.map fun (_, p) => (p.payload g).map (slot num))) s.buckets s.pool)
      | .error (first, second) => .error
          (.bucketCollision (l.keyBucket num second) (g.keyName first.1 first.2) (g.keyName second.1 second.2)) := by
  induction entries generalizing s owners with
  | nil => rfl
  | cons entry entries ih =>
    obtain ⟨key, p⟩ := entry
    have hlt : l.keyBucket num key < l.modulus.toNat := Layout.bucket_lt hm _ _
    rw [lay, List.map_cons, placeFrom]
    simp only [h _ hlt]
    cases owners.lookup (l.keyBucket num key) with
    | some owner => rfl
    | none =>
      refine (ih (h.put hlt key ((p.payload g).map (slot num)))).trans ?_
      cases placeFrom (l.keyBucket num) ((l.keyBucket num key, key) :: owners) (entries.map Prod.fst) with
      | error keys => rfl
      | ok places => rfl

variable (hm : l.modulus ≠ 0) (hs : l.shift.toNat < 64)

include hm hs

private theorem lay_start : (lay l g num (.start l) table.entries).map (fun s => (s.buckets, s.pool)) =
    (l.buckets g table num).map fun places =>
      fill (places.zip (table.entries.map fun (_, p) => (p.payload g).map (slot num)))
        (Array.replicate l.modulus.toNat {}) [] := by
  rw [lay_eq hm table.entries Laying.owned_start, Layout.buckets_eq hm hs]
  show _ = (match placeFrom (l.keyBucket num) [] (table.entries.map Prod.fst) with
    | .ok places => _
    | .error (first, second) => _ : Except Error (List Nat)).map _
  cases placeFrom (l.keyBucket num) [] (table.entries.map Prod.fst) with
  | error keys => rfl
  | ok places => rfl

/-- To lay a table out in one pass is to find the buckets first and then to fill them. -/
theorem pack_eq_packAtOnce : pack g table l = packAtOnce g table l := by
  simp only [pack, packAtOnce]
  refine bind_congr fun _ => bind_congr fun num => bind_congr fun symbols => ?_
  have hlay := @lay_start g table l num hm hs
  cases hb : l.buckets g table num with
  | error e =>
    rw [hb] at hlay
    rw [map_eq_error.mp hlay]
    rfl
  | ok places =>
    rw [hb] at hlay
    obtain ⟨s, hrun, hfill⟩ := map_eq_ok.mp hlay
    simp only [hrun, bind, Except.bind, ← hfill]

end PackedTable

/-! ### Checking and packing -/

variable {g : Grammar} {table : Table} {l : Layout} {e : Error}

/-- The buckets of the keys, which both a check and a packed table start from. -/
private def Layout.placed (l : Layout) (g : Grammar) (table : Table) : Except Error (List Nat) := do
  let num ← Numbering.resolve g l
  l.buckets g table num

private theorem placed_eq_error : l.placed g table = .error e ↔ Numbering.resolve g l = .error e ∨
    ∃ num, Numbering.resolve g l = .ok num ∧ l.buckets g table num = .error e := bind_eq_error

section Placed

variable (hm : l.modulus ≠ 0) (hf : l.checkFingerprint g = .ok ()) {symbols : SymbolNames}
  (hsymbols : SymbolNames.ofLayout l = .ok symbols)

include hm hf hsymbols

/-- Where keys cannot be placed a check and a table fail alike. -/
private theorem alike_of_error (h : l.placed g table = .error e) :
    l.verify g table = .error e ∧ PackedTable.pack g table l = .error e := by
  rcases placed_eq_error.mp h with hnum | ⟨num, hnum, hplaces⟩
  · simp [Layout.verify, PackedTable.pack, hm, hf, hnum, bind, Except.bind]
  · simp [Layout.verify, PackedTable.pack, hm, hf, hnum, hsymbols, hplaces, bind, Except.bind]

/-- Where they can, neither fails. -/
private theorem alike_of_ok {places : List Nat} (h : l.placed g table = .ok places) :
    l.verify g table = .ok () ∧ ∃ t, PackedTable.pack g table l = .ok t := by
  obtain ⟨num, hnum, hplaces⟩ := bind_eq_ok.mp h
  simp [Layout.verify, PackedTable.pack, hm, hf, hnum, hsymbols, hplaces, bind, Except.bind, pure, Except.pure]

end Placed

private theorem mismatch_of_resolveNames {kind : SymbolKind} {expected persisted : List String}
    (h : Numbering.resolveNames kind expected persisted = .error e) :
    ∃ missing extra, e = .symbolMismatch kind missing extra := by
  simp only [Numbering.resolveNames] at h
  split at h
  · simp at h
  · exact ⟨_, _, (Except.error.inj h).symm⟩

/-- Symbols that are not those of the grammar are the only reason for which a layout is not resolved. -/
private theorem mismatch_of_resolve (h : Numbering.resolve g l = .error e) :
    ∃ kind missing extra, e = .symbolMismatch kind missing extra := by
  rcases bind_eq_error.mp h with hterminals | ⟨terminals, -, h⟩
  · exact ⟨_, mismatch_of_resolveNames hterminals⟩
  · rcases bind_eq_error.mp h with hnonterminals | ⟨nonterminals, -, h⟩
    · exact ⟨_, mismatch_of_resolveNames hnonterminals⟩
    · simp [pure, Except.pure] at h

/-- A clash of buckets tells the first key whose bucket is taken, and the only key before it that has this bucket. -/
private theorem clash_of_buckets (hm : l.modulus ≠ 0) (hs : l.shift.toNat < 64) {num : Numbering}
    (h : l.buckets g table num = .error e) : ∃ before owner key after, table.keys = before ++ key :: after ∧
      (before.map (l.keyBucket num)).Nodup ∧
      (∀ k ∈ before, l.keyBucket num k = l.keyBucket num key ↔ k = owner) ∧ owner ∈ before ∧
      e = .bucketCollision (l.keyBucket num key) (g.keyName owner.1 owner.2) (g.keyName key.1 key.2) := by
  rw [Layout.buckets_eq hm hs] at h
  cases hplace : place (l.keyBucket num) table.keys with
  | ok places => simp [hplace] at h
  | error clash =>
    obtain ⟨owner, key⟩ := clash
    obtain ⟨before, after, hkeys, hnodup, howner, heq⟩ := place_eq_error hplace
    rw [hplace] at h
    refine ⟨before, owner, key, after, hkeys, hnodup, fun k hk => ?_, howner, (Except.error.inj h).symm⟩
    rw [← heq]
    exact ⟨List.inj_on_of_nodup_map hnodup hk howner, fun h => h ▸ rfl⟩

/-- Keys with one raw hash share a bucket, whatever the modulus is. -/
private theorem placed_of_rawCollision (hm : l.modulus ≠ 0) (hs : l.shift.toNat < 64) {num : Numbering}
    (hnum : Numbering.resolve g l = .ok num) {first second : String} {shift : Nat}
    (h : rawHashes g table num l.major l.shift.toNat = .error (.rawCollision first second shift)) :
    ∃ bucket owner key, l.placed g table = .error (.bucketCollision bucket owner key) := by
  have hraw : ¬ (table.keys.map (keyHash num l.major l.shift.toNat)).Nodup := by
    intro hnodup
    rw [rawHashes_of_nodup hs hnodup] at h
    simp at h
  have hbuckets : ¬ (table.keys.map (l.keyBucket num)).Nodup := by
    intro hnodup
    have hmap : table.keys.map (l.keyBucket num) =
        (table.keys.map (keyHash num l.major l.shift.toNat)).map (· % l.modulus.toNat) := by
      rw [List.map_map]
      rfl
    rw [hmap] at hnodup
    exact hraw hnodup.of_map
  obtain ⟨owner, key, hplace⟩ := exists_place_eq_error hbuckets
  refine ⟨l.keyBucket num key, g.keyName owner.1 owner.2, g.keyName key.1 key.2, ?_⟩
  simp [Layout.placed, hnum, Layout.buckets_eq hm hs, hplace, bind, Except.bind]

/-- A layout that belongs to the grammar and names its symbols packs a table, in one pass or not, exactly if it passes the
check, and otherwise both fail with the same error. This tells that the symbols are others, or the first key in order
whose bucket is taken and the one key before it that has it. Where raw hashes collide no modulus helps. -/
theorem PackedTable.packs_exactly_verified (g : Grammar) (table : Table) {l : Layout} (hmod : 1 ≤ l.modulus.toNat)
    (hs : l.shift.toNat < 64) (hf : l.checkFingerprint g = .ok ())
    (hnames : Nameable l.terminals ∧ Nameable l.nonterminals) :
    pack g table l = packAtOnce g table l ∧
    ((∃ t, pack g table l = .ok t) ↔ l.verify g table = .ok ()) ∧
    (∀ e, pack g table l = .error e ↔ l.verify g table = .error e) ∧
    (∀ e, l.verify g table = .error e →
      (Numbering.resolve g l = .error e ∧ ∃ kind missing extra, e = .symbolMismatch kind missing extra) ∨
      ∃ num before owner key after, Numbering.resolve g l = .ok num ∧ table.keys = before ++ key :: after ∧
        (before.map (l.keyBucket num)).Nodup ∧
        (∀ k ∈ before, l.keyBucket num k = l.keyBucket num key ↔ k = owner) ∧ owner ∈ before ∧
        e = .bucketCollision (l.keyBucket num key) (g.keyName owner.1 owner.2) (g.keyName key.1 key.2)) ∧
    ∀ num first second shift, Numbering.resolve g l = .ok num →
      rawHashes g table num l.major l.shift.toNat = .error (.rawCollision first second shift) →
      ∀ m : UInt32, m ≠ 0 → ∃ bucket owner key,
        Layout.verify { l with modulus := m } g table = .error (.bucketCollision bucket owner key) ∧
        pack g table { l with modulus := m } = .error (.bucketCollision bucket owner key) := by
  have hm := Layout.modulus_ne_zero hmod
  obtain ⟨symbols, hsymbols⟩ := SymbolNames.exists_ofLayout.mpr hnames
  refine ⟨pack_eq_packAtOnce hm hs, ?_, ?_, ?_, ?_⟩
  · cases hplaced : l.placed g table with
    | error e =>
      obtain ⟨hverify, hpack⟩ := alike_of_error hm hf hsymbols hplaced
      simp [hverify, hpack]
    | ok places =>
      obtain ⟨hverify, hpack⟩ := alike_of_ok hm hf hsymbols hplaced
      exact iff_of_true hpack hverify
  · intro e
    cases hplaced : l.placed g table with
    | error e' =>
      obtain ⟨hverify, hpack⟩ := alike_of_error hm hf hsymbols hplaced
      simp [hverify, hpack]
    | ok places =>
      obtain ⟨hverify, t, hpack⟩ := alike_of_ok hm hf hsymbols hplaced
      simp [hverify, hpack]
  · intro e hverify
    have hplaced : l.placed g table = .error e := by
      cases hplaced : l.placed g table with
      | error e' =>
        obtain ⟨hverify', -⟩ := alike_of_error hm hf hsymbols hplaced
        rw [Except.error.inj (hverify'.symm.trans hverify)]
      | ok places =>
        obtain ⟨hverify', -⟩ := alike_of_ok hm hf hsymbols hplaced
        rw [hverify'] at hverify
        simp at hverify
    rcases placed_eq_error.mp hplaced with hnum | ⟨num, hnum, hbuckets⟩
    · exact Or.inl ⟨hnum, mismatch_of_resolve hnum⟩
    · obtain ⟨before, owner, key, after, hclash⟩ := clash_of_buckets hm hs hbuckets
      exact Or.inr ⟨num, before, owner, key, after, hnum, hclash⟩
  · intro num first second shift hnum hraw m hzero
    -- neither the numbering nor the names depend on the modulus
    obtain ⟨bucket, owner, key, hplaced⟩ := placed_of_rawCollision (l := { l with modulus := m }) hzero hs hnum hraw
    exact ⟨bucket, owner, key, alike_of_error (l := { l with modulus := m }) hzero hf hsymbols hplaced⟩

/-- Ten buckets are not enough for the keys of two optional letters: the last key meets an earlier one. With less shift
their raw hashes collide, so no number of buckets is enough. -/
theorem PackedTable.packs_exactly_verified_optionalPair :
    (Layout.verify { Layout.optionalPair with modulus := 10 } Draft.optionalPair.grammar Compiled.optionalPair.table =
        .error (.bucketCollision 0 "first, a" "second, $") ∧
      pack Draft.optionalPair.grammar Compiled.optionalPair.table { Layout.optionalPair with modulus := 10 } =
        .error (.bucketCollision 0 "first, a" "second, $")) ∧
    ∀ m : UInt32, m ≠ 0 → ∃ bucket owner key,
      pack Draft.optionalPair.grammar Compiled.optionalPair.table
        { Layout.optionalPair with shift := 1, modulus := m } = .error (.bucketCollision bucket owner key) := by
  have hsymbols : SymbolNames.ofLayout Layout.optionalPair =
      .ok ⟨["$", "b", "a"], ["EOF", "B", "A"], ["second", "pair", "first"], ["SECOND", "PAIR", "FIRST"]⟩ := by
    decide +kernel
  have hnames := SymbolNames.exists_ofLayout.mp ⟨_, hsymbols⟩
  obtain ⟨-, -, hsame, -, -⟩ := packs_exactly_verified Draft.optionalPair.grammar Compiled.optionalPair.table
    (l := { Layout.optionalPair with modulus := 10 }) (by decide) (by decide) rfl hnames
  obtain ⟨-, -, -, -, hraw⟩ := packs_exactly_verified Draft.optionalPair.grammar Compiled.optionalPair.table
    (l := { Layout.optionalPair with shift := 1 }) (by decide) (by decide) rfl hnames
  have hverify : Layout.verify { Layout.optionalPair with modulus := 10 } Draft.optionalPair.grammar
      Compiled.optionalPair.table = .error (.bucketCollision 0 "first, a" "second, $") := by decide +kernel
  have hcollision : rawHashes Draft.optionalPair.grammar Compiled.optionalPair.table ⟨[2, 1, 0], [1, 2, 0]⟩
      .nonterminal 1 = .error (.rawCollision "pair, a" "first, $" 1) := by decide +kernel
  refine ⟨⟨hverify, (hsame _).mpr hverify⟩, fun m hm => ?_⟩
  obtain ⟨bucket, owner, key, -, hpack⟩ := hraw _ _ _ _ (by decide +kernel) hcollision m hm
  exact ⟨bucket, owner, key, hpack⟩

end Predictive
