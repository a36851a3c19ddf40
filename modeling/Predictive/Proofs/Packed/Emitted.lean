import Predictive.Proofs.Packed.CLines
import Predictive.Proofs.Packed.Coherence

/-!
# Emitted tables

The text of a packed table, read as C, is the table again (`CText.reads_back`): its constants are the symbols in the order
of the layout, its pool and its buckets are those of the table, and its index function and its look-ups have the same
results.
-/

namespace Predictive.CText

open PackedTable

variable {t : PackedTable}

/-! ### Constants -/

private theorem isIdentifier_nonterminalConstant {name : String} (h : name.toList.all isIdentifierPart = true) :
    isIdentifier (nonterminalConstant name) = true := isIdentifier_append (by decide) h

private theorem isIdentifier_terminalConstant {name : String} (h : name.toList.all isIdentifierPart = true) :
    isIdentifier (terminalConstant name) = true := isIdentifier_append (by decide) h

private theorem nonterminalConstant_inj {a b : String} (h : nonterminalConstant a = nonterminalConstant b) : a = b := by
  simpa [nonterminalConstant] using h

private theorem terminalConstant_inj {a b : String} (h : terminalConstant a = terminalConstant b) : a = b := by
  simpa [terminalConstant] using h

/-- No constant stands for a nonterminal and for a terminal. -/
private theorem nonterminalConstant_ne (a b : String) : nonterminalConstant a ≠ terminalConstant b := by
  intro h
  have hchars := congrArg String.toList h
  rw [nonterminalConstant, terminalConstant, String.toList_append, String.toList_append] at hchars
  have hfirst : ('N' :: ("T_".toList ++ a.toList)).head? = ('T' :: ("_".toList ++ b.toList)).head? :=
    congrArg List.head? hchars
  simp at hfirst

private theorem isIdentifierPart_getD {displays : List String} (h : Nameable displays) (i : Nat) :
    ((displays.map identifier).getD i "").toList.all isIdentifierPart = true := by
  by_cases hi : i < (displays.map identifier).length
  · obtain ⟨display, hmem, heq⟩ := List.mem_map.mp (getD_mem hi "")
    rw [← heq]
    exact all_isIdentifierPart (h.1 display hmem)
  · rw [List.getD_eq_default _ _ (Nat.le_of_not_lt hi)]
    rfl

private theorem constants_of_coherent (h : t.Coherent) : Constants t.symbols where
  nonterminal i := by
    rw [h.nonterminalNames]
    exact isIdentifier_nonterminalConstant (isIdentifierPart_getD h.nameable_nonterminals i)
  terminal i := by
    rw [h.terminalNames]
    exact isIdentifier_terminalConstant (isIdentifierPart_getD h.nameable_terminals i)

private theorem isIdentifier_of_mem_nonterminals (h : t.Coherent) :
    ∀ c ∈ t.symbols.nonterminalNames.map nonterminalConstant, isIdentifier c = true := by
  intro c hc
  rw [h.nonterminalNames, List.map_map] at hc
  obtain ⟨display, hmem, rfl⟩ := List.mem_map.mp hc
  exact isIdentifier_nonterminalConstant (all_isIdentifierPart (h.nameable_nonterminals.1 display hmem))

private theorem isIdentifier_of_mem_terminals (h : t.Coherent) :
    ∀ c ∈ t.symbols.terminalNames.map terminalConstant, isIdentifier c = true := by
  intro c hc
  rw [h.terminalNames, List.map_map] at hc
  obtain ⟨display, hmem, rfl⟩ := List.mem_map.mp hc
  exact isIdentifier_terminalConstant (all_isIdentifierPart (h.nameable_terminals.1 display hmem))

private theorem nodup_nonterminals (h : t.Coherent) : (t.symbols.nonterminalNames.map nonterminalConstant).Nodup := by
  rw [h.nonterminalNames]
  exact h.nameable_nonterminals.2.map fun _ _ heq => nonterminalConstant_inj heq

private theorem nodup_terminals (h : t.Coherent) : (t.symbols.terminalNames.map terminalConstant).Nodup := by
  rw [h.terminalNames]
  exact h.nameable_terminals.2.map fun _ _ heq => terminalConstant_inj heq

private theorem nodup_constants (h : t.Coherent) : (t.symbols.nonterminalNames.map nonterminalConstant ++
    t.symbols.terminalNames.map terminalConstant).Nodup := by
  refine (nodup_nonterminals h).append (nodup_terminals h) fun c hn ht => ?_
  obtain ⟨a, -, rfl⟩ := List.mem_map.mp hn
  obtain ⟨b, -, heq⟩ := List.mem_map.mp ht
  exact nonterminalConstant_ne a b heq.symm

/-! ### Elements -/

theorem mem_validElements {i : Nat} {b : Bucket} :
    (i, b) ∈ validElements t ↔ t.buckets[i]? = some b ∧ b.valid = true := by
  simp only [validElements, List.mem_filterMap, Prod.exists, List.mk_mem_zipIdx_iff_getElem?, Array.getElem?_toList]
  constructor
  · rintro ⟨b', i', hget, hsome⟩
    by_cases hv : b'.valid = true
    · obtain ⟨rfl, rfl⟩ : i' = i ∧ b' = b := by simpa [hv] using hsome
      exact ⟨hget, hv⟩
    · simp [hv] at hsome
  · rintro ⟨hget, hv⟩
    exact ⟨b, i, hget, by simp [hv]⟩

private theorem nodup_indices (t : PackedTable) : ((validElements t).map Prod.fst).Nodup := by
  have hindices : t.buckets.toList.zipIdx.Pairwise fun x y => x.2 ≠ y.2 := by
    rw [← List.pairwise_map, List.zipIdx_map_snd]
    exact List.nodup_range'
  rw [List.Nodup, List.pairwise_map]
  refine hindices.filterMap _ ?_
  rintro ⟨b, i⟩ ⟨b', i'⟩ hne element helement element' helement'
  obtain ⟨-, rfl⟩ : b.valid = true ∧ (i, b) = element := by simpa using helement
  obtain ⟨-, rfl⟩ : b'.valid = true ∧ (i', b') = element' := by simpa using helement'
  exact hne

/-- The valid buckets put in their places among zeros. -/
private theorem foldl_elements {buckets : List Bucket} (h : ∀ b ∈ buckets, b.valid = false → b = {})
    (before : List Bucket) :
    ((buckets.zipIdx before.length).filterMap fun (b, i) => if b.valid then some (i, b) else none).foldl
      (fun filled (i, b) => filled.setIfInBounds i b)
        (before ++ List.replicate buckets.length ({} : Bucket)).toArray = (before ++ buckets).toArray := by
  induction buckets generalizing before with
  | nil => rfl
  | cons b buckets ih =>
    have ih' := ih (fun x hx => h x (List.mem_cons_of_mem b hx)) (before ++ [b])
    rw [List.length_append, List.length_singleton, List.append_assoc, List.append_assoc] at ih'
    rw [List.zipIdx_cons, List.length_cons, List.replicate_succ]
    by_cases hv : b.valid = true
    · simp [hv] at ih' ⊢
      exact ih'
    · have hempty : b = {} := h b List.mem_cons_self (by simpa using hv)
      simp [hv] at ih' ⊢
      rw [hempty] at ih' ⊢
      exact ih'

/-! ### Reading back -/

/-- A packed table as it stands in C. -/
def Emitted.ofTable (t : PackedTable) : Emitted where
  nonterminals := t.symbols.nonterminalNames.map nonterminalConstant
  terminals := t.symbols.terminalNames.map terminalConstant
  bucketCount := t.modulus.toNat
  pool := t.pool.map (namedSlot t.symbols)
  elements := validElements t
  index := indexOf t

namespace Emitted

/-- A table is read from its parts, whether it has a pool or not. -/
private theorem ofFound?_eq (nonterminals terminals : List String) {structures : List Declaration} {bucketCount : Nat}
    (pool : List NamedSlot) {elements : List (Nat × Bucket)} (index : Expression) {setUp : List Token}
    (hstructures : declarations? (ofLines structureTexts) = some structures)
    (hindices : ∀ e ∈ elements, e.1 < bucketCount)
    (hsetUp : tokens? (ofLines (setUpBody (!pool.isEmpty))).toList = some setUp) :
    ofFound? ⟨[nonterminals], [terminals], structures, [bucketCount], [pool.length],
      if pool.isEmpty then [] else [("PARSER_POOL_SLOTS", pool)], [("PARSER_TABLE_BUCKETS", elements)], [index],
      [setUp]⟩ = some ⟨nonterminals, terminals, bucketCount, pool, elements, index⟩ := by
  have hbody : ∀ b : Bool, (!pool.isEmpty) = b → tokens? (ofLines (setUpBody b)).toList = some setUp := by
    rintro _ rfl
    exact hsetUp
  cases pool with
  | nil =>
    have hset := hbody false rfl
    simp only [ofFound?, List.isEmpty_nil, if_true, Option.bind_eq_bind, Option.bind_some]
    exact if_pos ⟨trivial, trivial, hindices, hstructures.symm, hset.symm⟩
  | cons slot pool =>
    have hset := hbody true rfl
    simp only [ofFound?, List.isEmpty_cons, Bool.false_eq_true, if_false, if_true,
      Option.bind_eq_bind, Option.bind_some]
    exact if_pos ⟨trivial, trivial, hindices, hstructures.symm, hset.symm⟩

theorem read?_render (h : t.Coherent) (header : String) :
    read? (render t Program.emitName header) = some (ofTable t) := by
  obtain ⟨structures, hstructures, hdeclares⟩ := declares_header (isIdentifier_of_mem_nonterminals h)
    (isIdentifier_of_mem_terminals h)
  obtain ⟨ds, hheader, hfound⟩ := hdeclares.declarations
  obtain ⟨setUp, hsetUp, hdeclares'⟩ := declares_source (constants_of_coherent h) (isIdentifier_of_mem_nonterminals h)
    (isIdentifier_of_mem_terminals h) header
  obtain ⟨ds', hsource, hfound'⟩ := hdeclares'.declarations
  have hindices : ∀ e ∈ validElements t, e.1 < t.modulus.toNat := by
    rintro ⟨i, b⟩ he
    obtain ⟨hlt, -⟩ := Array.getElem?_eq_some_iff.mp (mem_validElements.mp he).1
    rwa [h.size_eq] at hlt
  have hparts := ofFound?_eq (t.symbols.nonterminalNames.map nonterminalConstant)
    (t.symbols.terminalNames.map terminalConstant) (t.pool.map (namedSlot t.symbols)) (indexOf t) hstructures
    hindices (by simpa using hsetUp)
  rw [List.length_map, List.isEmpty_map] at hparts
  rw [read?, render, hheader, hsource]
  simp only [Option.bind_eq_bind, Option.bind_some, found_append, hfound, hfound', Found.append, List.append_nil,
    List.nil_append]
  exact hparts

private theorem idxOf?_getD {l : List String} (hl : l.Nodup) {i : Nat} (hi : i < l.length) (b : String) :
    l.idxOf? (l.getD i b) = some i := by
  rw [idxOf?_of_mem (getD_mem hi b), idxOf_getD hl hi b]

private theorem slot?_namedSlot (h : t.Coherent) {slot : Slot} (hslot : slot ∈ t.pool) :
    (ofTable t).slot? (namedSlot t.symbols slot) = some slot := by
  cases slot with
  | nonterminal i =>
    have hi := h.nonterminal_lt i hslot
    rw [namedSlot, slot?, ← List.getD_map _ _ nonterminalConstant]
    have hfind := idxOf?_getD (nodup_nonterminals h) (i := i) (by simpa [h.nonterminalNames] using hi)
    simp only [ofTable]
    rw [hfind, Option.map_some]
  | terminal i =>
    have hi := h.terminal_lt i hslot
    rw [namedSlot, slot?, ← List.getD_map _ _ terminalConstant]
    have hfind := idxOf?_getD (nodup_terminals h) (i := i) (by simpa [h.terminalNames] using hi)
    simp only [ofTable]
    rw [hfind, Option.map_some]

private theorem slots?_ofTable (h : t.Coherent) : (ofTable t).slots? = some t.pool := by
  have hpool : ∀ pool : List Slot, (∀ slot ∈ pool, slot ∈ t.pool) →
      (pool.map (namedSlot t.symbols)).mapM (ofTable t).slot? = some pool := by
    intro pool hmem
    induction pool with
    | nil => rfl
    | cons slot pool ih =>
      rw [List.map_cons, List.mapM_cons, slot?_namedSlot h (hmem slot List.mem_cons_self),
        ih fun x hx => hmem x (List.mem_cons_of_mem slot hx)]
      rfl
  exact hpool t.pool fun _ hx => hx

private theorem buckets_ofTable (h : t.Coherent) : (ofTable t).buckets = t.buckets := by
  have hfill := foldl_elements (fun b hb => h.empty b (Array.mem_toList_iff.mp hb)) []
  have hsize : t.buckets.toList.length = t.modulus.toNat := h.size_eq
  rw [hsize] at hfill
  simpa [buckets, ofTable, validElements] using hfill

private theorem rawHash_eq {major minor shift : Nat} (hmajor : major < UInt32.size) (hminor : minor < UInt32.size)
    (hs : shift < 64) : ((UInt64.ofNat major <<< UInt64.ofNat shift) + UInt64.ofNat minor).toNat =
      (major <<< shift) % UInt64.size + minor := by
  have hsize : UInt32.size = 2 ^ 32 := rfl
  have hsum : (major <<< shift) % 2 ^ 64 + minor < 2 ^ 64 := shiftLeft_add_lt hmajor hminor hs
  calc ((UInt64.ofNat major <<< UInt64.ofNat shift) + UInt64.ofNat minor).toNat
      = ((major <<< shift) % 2 ^ 64 + minor) % 2 ^ 64 := by
        rw [UInt64.toNat_add, UInt64.toNat_shiftLeft, UInt64.toNat_ofNat', UInt64.toNat_ofNat', UInt64.toNat_ofNat',
          Nat.mod_eq_of_lt (by omega : major < 2 ^ 64), Nat.mod_eq_of_lt (by omega : minor < 2 ^ 64),
          Nat.mod_eq_of_lt (by omega : shift < 2 ^ 64), Nat.mod_eq_of_lt hs]
    _ = (major <<< shift) % 2 ^ 64 + minor := Nat.mod_eq_of_lt hsum
    _ = (major <<< shift) % UInt64.size + minor := rfl

/-- The expression over the numbers of two symbols. -/
private theorem eval_indexOfPair {values : String → Option Operand} {majorName minorName : String}
    {major minor shift modulus : Nat} (hmajor : values majorName = some (.narrow major))
    (hminor : values minorName = some (.narrow minor))
    (hmodulus : values "PARSER_TABLE_BUCKETS" = some (.narrow modulus)) (hltmajor : major < UInt32.size)
    (hltminor : minor < UInt32.size) (hs : shift < 32) (hpos : 0 < modulus) (hlt : modulus < UInt32.size) :
    ∃ n, (indexOfPair majorName minorName shift).eval values = some (.size n) ∧
      n.toNat = ((major <<< shift) % UInt64.size + minor) % modulus := by
  have hsize : UInt32.size = 2 ^ 32 := rfl
  have hmod : (UInt64.ofNat modulus).toNat = modulus := by
    rw [UInt64.toNat_ofNat', Nat.mod_eq_of_lt (by omega)]
  have hne : UInt64.ofNat modulus ≠ 0 := by
    intro hzero
    rw [hzero] at hmod
    exact absurd hmod.symm (Nat.ne_of_gt hpos)
  have hs' : shift < 64 := by omega
  refine ⟨((UInt64.ofNat major <<< UInt64.ofNat shift) + UInt64.ofNat minor) % UInt64.ofNat modulus, ?_, ?_⟩
  · simp only [indexOfPair, Expression.eval, hmajor, hminor, hmodulus, Option.bind_eq_bind, Option.bind_some,
      Option.pure_def, Operand.toSize, Operator.apply_shiftLeft _ hs', Operator.apply_add,
      Operator.apply_remainder _ hne]
  · rw [UInt64.toNat_mod, rawHash_eq hltmajor hltminor hs', hmod]

example : (indexOfPair "nterm" "term" 2).eval (fun name =>
    some (.narrow (if name = "nterm" then 3 else if name = "term" then 1 else 11))) = some (.size 2) := by
  decide +kernel

theorem index?_ofTable (h : t.Coherent) (hs : t.shift.toNat < 32) (nt term : UInt32) :
    (ofTable t).index? nt term = some (t.index nt.toNat term.toNat) := by
  have hnt : (ofTable t).values nt term "nterm" = some (.narrow nt.toNat) := rfl
  have hterm : (ofTable t).values nt term "term" = some (.narrow term.toNat) := rfl
  have hmodulus : (ofTable t).values nt term "PARSER_TABLE_BUCKETS" = some (.narrow t.modulus.toNat) := rfl
  have hindex : (ofTable t).index = indexOf t := rfl
  unfold index? PackedTable.index rawHash
  rw [hindex, indexOf]
  cases t.major with
  | nonterminal =>
    obtain ⟨n, heval, hn⟩ := eval_indexOfPair hnt hterm hmodulus nt.toNat_lt term.toNat_lt hs h.modulus_pos
      t.modulus.toNat_lt
    rw [heval, Option.map_some, ← hn]
    rfl
  | terminal =>
    obtain ⟨n, heval, hn⟩ := eval_indexOfPair hterm hnt hmodulus term.toNat_lt nt.toNat_lt hs h.modulus_pos
      t.modulus.toNat_lt
    rw [heval, Option.map_some, ← hn]
    rfl

theorem lookup?_ofTable (h : t.Coherent) (hs : t.shift.toNat < 32) (nt term : UInt32) :
    (ofTable t).lookup? nt term = some (t.lookup nt.toNat term.toNat) := by
  have hbucket := h.getElem?_index nt.toNat term.toNat
  have hbounded := h.bounded _ (Array.mem_of_getElem? hbucket)
  rw [lookup?, index?_ofTable h hs, buckets_ofTable h, slots?_ofTable h, PackedTable.lookup]
  simp only [Option.bind_eq_bind, Option.bind_some, hbucket, if_pos hbounded]
  split <;> rfl

/-- What is read is the table: the constants are identifiers in the order of the layout and no two are the same, the
pool holds the same symbols, the elements that are set are the valid buckets, and bucket, index and payload of any two
symbols are the same. -/
structure Agrees (e : Emitted) (t : PackedTable) : Prop where
  nonterminals : e.nonterminals = t.symbols.nonterminals.map fun display => nonterminalConstant (identifier display)
  terminals : e.terminals = t.symbols.terminals.map fun display => terminalConstant (identifier display)
  identifiers : ∀ constant ∈ e.nonterminals ++ e.terminals, isIdentifier constant = true
  distinct : (e.nonterminals ++ e.terminals).Nodup
  pool : e.slots? = some t.pool
  elements : ∀ i b, (i, b) ∈ e.elements ↔ t.buckets[i]? = some b ∧ b.valid = true
  setOnce : (e.elements.map Prod.fst).Nodup
  bucketCount : e.bucketCount = t.modulus.toNat
  buckets : e.buckets = t.buckets
  index : ∀ nt term : UInt32, e.index? nt term = some (t.index nt.toNat term.toNat)
  lookup : ∀ nt term : UInt32, e.lookup? nt term = some (t.lookup nt.toNat term.toNat)

theorem agrees_ofTable (h : t.Coherent) (hs : t.shift.toNat < 32) : (ofTable t).Agrees t where
  nonterminals := by
    rw [ofTable, h.nonterminalNames, List.map_map]
    rfl
  terminals := by
    rw [ofTable, h.terminalNames, List.map_map]
    rfl
  identifiers := fun constant hc => (List.mem_append.mp hc).elim (isIdentifier_of_mem_nonterminals h constant)
    (isIdentifier_of_mem_terminals h constant)
  distinct := nodup_constants h
  pool := slots?_ofTable h
  elements := fun _ _ => mem_validElements
  setOnce := nodup_indices t
  bucketCount := rfl
  buckets := buckets_ofTable h
  index := index?_ofTable h hs
  lookup := lookup?_ofTable h hs

end Emitted

/-- The text of a table that was packed for a grammar, read as C, is that table. -/
theorem reads_back {d : Draft} {g : Grammar} {c : Compiled} {l : Layout} (hb : d.build = .ok g)
    (hc : Compiled.compile g = .ok c) (hp : pack g c.table l = .ok t) (hs : t.shift.toNat < 32) (header : String) :
    t.symbols.nonterminals = l.nonterminals ∧ t.symbols.terminals = l.terminals ∧
      ∃ e, Emitted.read? (render t Program.emitName header) = some e ∧ e.Agrees t := by
  obtain ⟨hlegal, rfl⟩ := Draft.build_eq_ok.mp hb
  have hshift : l.shift.toNat < 64 := by
    rw [← shift_of_pack hp]
    omega
  have hcoherent := coherent_of_pack hlegal.wellFormed hc hshift hp
  obtain ⟨hterminals, hnonterminals⟩ := displays_of_pack hp
  exact ⟨hnonterminals, hterminals, _, Emitted.read?_render hcoherent header, Emitted.agrees_ofTable hcoherent hs⟩

theorem reads_back_optionalPair : ∃ t,
    pack Draft.optionalPair.grammar Compiled.optionalPair.table Layout.optionalPair = .ok t ∧ t.shift.toNat < 32 ∧
    ∃ e, Emitted.read? (render t Program.emitName "table.h") = some e ∧ e.Agrees t := by
  obtain ⟨t, ht⟩ := exists_pack_optionalPair
  have hs : t.shift.toNat < 32 := by
    rw [shift_of_pack ht]
    decide
  exact ⟨t, ht, hs, (reads_back Draft.build_optionalPair Compiled.compile_optionalPair ht hs "table.h").2.2⟩

end Predictive.CText
