import Predictive.Proofs.Grammar.Reordering
import Predictive.Proofs.Packed.Recognition
import Predictive.Proofs.Table.Renaming

/-!
# Reordered drafts pack alike

A layout gives positions to names. So the payloads of a table and their buckets can be read off the table by name
(`PackedTable.items_eq_map_byName`), and for reordered drafts they are the same up to order. Which payload a look-up
finds does not depend on the order in which buckets are filled.

Together with what is known of grammars and tables: nothing that can be seen by name, or by position in a layout,
depends on the order of a draft (`Draft.Reorders.same_at_every_stage`).
-/

namespace Predictive

/-- The names of a layout in the order of their positions. -/
def Layout.vocabulary (l : Layout) : Vocabulary := ⟨l.terminals, l.nonterminals⟩

namespace PackedTable

variable {g g' : Grammar} {table table' : Table} {l : Layout}

/-! ### Payloads by name -/

private theorem slot_eq_symbolOf (hg : g.WellFormed) (h : l.Fits g) {x : Symbol} (hx : g.InRange x) :
    slot (.ofNames g l) x = l.vocabulary.symbolOf (g.symbolName x) := by
  cases x with
  | terminal t =>
    have hname : g.terminalName t ∈ g.terminals := getD_mem hx ""
    have hnot : g.terminalName t ∉ l.nonterminals := fun hm =>
      hg.disjoint _ hname (h.nonterminals.mem_iff.mp hm)
    rw [slot, Numbering.terminalAt_ofNames hx]
    exact (if_neg hnot).symm
  | nonterminal n =>
    have hname : g.nonterminalName n ∈ l.nonterminals := h.nonterminals.mem_iff.mpr (getD_mem hx "")
    rw [slot, Numbering.nonterminalAt_ofNames hx]
    exact (if_pos hname).symm

private theorem slots_eq_byName (hg : g.WellFormed) (h : l.Fits g) (p : Prediction) :
    slots g l p = ((p.byName g).getD []).map l.vocabulary.symbolOf := by
  cases p with
  | vanish => rfl
  | expand id =>
    have hrange : ∀ x ∈ g.rhsOf id, g.InRange x := by
      unfold Grammar.rhsOf
      cases hid : g.productions[id]? with
      | none => simp
      | some p => exact hg.inRange_rhs (List.mem_of_getElem? hid)
    show (g.rhsOf id).map (slot (.ofNames g l)) = ((g.rhsOf id).map g.symbolName).map l.vocabulary.symbolOf
    rw [List.map_map]
    exact List.map_congr_left fun x hx => slot_eq_symbolOf hg h (hrange x hx)

/-- An entry by name as a payload with its bucket. -/
def itemByName (l : Layout) : (String × String) × Option (List String) → Nat × List Slot
  | ((n, t), names) =>
    (l.bucket (l.nonterminals.idxOf n) (l.terminals.idxOf t), (names.getD []).map l.vocabulary.symbolOf)

theorem items_eq_map_byName (hg : g.WellFormed) (h : l.Fits g)
    (hkeys : ∀ key ∈ table.keys, key.1 < g.nonterminals.length ∧ key.2 < g.terminals.length) :
    items g table l = (table.byName g).map (itemByName l) := by
  rw [items, Table.byName, List.map_map]
  refine List.map_congr_left fun item hm => ?_
  obtain ⟨⟨n, t⟩, p⟩ := item
  obtain ⟨hn, ht⟩ := hkeys (n, t) (List.mem_map.mpr ⟨_, hm, rfl⟩)
  show (l.bucket _ _, slots g l p) = (l.bucket _ _, _)
  rw [Numbering.nonterminalAt_ofNames hn, Numbering.terminalAt_ofNames ht, slots_eq_byName hg h]

/-! ### Tables with the same payloads -/

/-- The grammars and tables are the same for a layout: it is made for both or for none, fits both or none, and then
has the same payloads to place. -/
private structure Alike (l : Layout) (g g' : Grammar) (table table' : Table) : Prop where
  wellFormed : g.WellFormed
  wellFormed' : g'.WellFormed
  fingerprint : g.fingerprint = g'.fingerprint
  fits : l.Fits g → l.Fits g'
  items : l.Fits g → (items g table l).Perm (PackedTable.items g' table' l)

namespace Alike

variable (h : Alike l g g' table table') (hm : l.modulus ≠ 0) (hs : l.shift.toNat < 64)

include h hm hs

private theorem exists_pack {t : PackedTable} (hp : pack g table l = .ok t) : ∃ t', pack g' table' l = .ok t' := by
  obtain ⟨hf, hfits, hnodup, symbols, hsymbols, -⟩ := (pack_eq_ok h.wellFormed hm hs).mp hp
  refine ⟨_, (pack_eq_ok h.wellFormed' hm hs).mpr ⟨?_, h.fits hfits, ?_, symbols, hsymbols, rfl⟩⟩
  · rw [Layout.checkFingerprint, ← h.fingerprint]
    exact hf
  · rw [← map_fst_items] at hnodup ⊢
    exact ((h.items hfits).map Prod.fst).nodup_iff.mp hnodup

private theorem lookup_eq {t t' : PackedTable} (hp : pack g table l = .ok t) (hp' : pack g' table' l = .ok t')
    (i j : Nat) : t.lookup i j = t'.lookup i j := by
  have hfits := fits_of_pack h.wellFormed hm hs hp
  refine Option.ext fun payload => ?_
  rw [lookup_eq_some_iff_mem_items h.wellFormed hm hs hp, lookup_eq_some_iff_mem_items h.wellFormed' hm hs hp']
  exact (h.items hfits).mem_iff

end Alike

end PackedTable

namespace Draft

variable {d d' : Draft} {c c' : Compiled}

private theorem Reorders.alike (h : d.Reorders d') (hd : d.Legal) (hc : Compiled.compile d.grammar = .ok c)
    (hc' : Compiled.compile d'.grammar = .ok c') (l : Layout) :
    PackedTable.Alike l d.grammar d'.grammar c.table c'.table where
  wellFormed := hd.wellFormed
  wellFormed' := (h.legal hd).wellFormed
  fingerprint := h.fingerprint_eq hd
  fits := fun hfits => ⟨hfits.terminals.trans h.perm_terminals, hfits.nonterminals.trans h.perm_lefts⟩
  items := by
    intro hfits
    have hfits' : l.Fits d'.grammar :=
      ⟨hfits.terminals.trans h.perm_terminals, hfits.nonterminals.trans h.perm_lefts⟩
    have hb := Compiled.build_of_compile hc
    have hb' := Compiled.build_of_compile hc'
    rw [PackedTable.items_eq_map_byName hd.wellFormed hfits fun _ => Table.key_lt hb,
      PackedTable.items_eq_map_byName (h.legal hd).wellFormed hfits' fun _ => Table.key_lt hb']
    exact (Compiled.byName_perm hd.wellFormed (h.legal hd).wellFormed (h.twins hd) hc hc').map _

/-- Reordered drafts yield grammars together, with one fingerprint. These are compiled together, and their tables have
the same entries by name, whose keys are distinct. The tables are packed together under every usable layout, and then
every look-up finds the same. -/
theorem Reorders.same_at_every_stage (h : d.Reorders d') :
    ((∃ g, d.build = .ok g) ↔ ∃ g', d'.build = .ok g') ∧
    ∀ g g', d.build = .ok g → d'.build = .ok g' →
      g.fingerprint = g'.fingerprint ∧
      ((∃ c, Compiled.compile g = .ok c) ↔ ∃ c', Compiled.compile g' = .ok c') ∧
      ∀ c c', Compiled.compile g = .ok c → Compiled.compile g' = .ok c' →
        ((c.table.byName g).map Prod.fst).Nodup ∧ (c.table.byName g).Perm (c'.table.byName g') ∧
        ∀ l : Layout, 1 ≤ l.modulus.toNat → l.shift.toNat < 64 →
          ((∃ t, PackedTable.pack g c.table l = .ok t) ↔ ∃ t', PackedTable.pack g' c'.table l = .ok t') ∧
          ∀ t t', PackedTable.pack g c.table l = .ok t → PackedTable.pack g' c'.table l = .ok t' →
            ∀ i j, t.lookup i j = t'.lookup i j := by
  refine ⟨⟨?_, ?_⟩, ?_⟩
  · rintro ⟨g, hb⟩
    exact ⟨d'.grammar, build_eq_ok.mpr ⟨h.legal (build_eq_ok.mp hb).1, rfl⟩⟩
  · rintro ⟨g', hb'⟩
    exact ⟨d.grammar, build_eq_ok.mpr ⟨h.symm.legal (build_eq_ok.mp hb').1, rfl⟩⟩
  intro g g' hb hb'
  obtain ⟨hd, rfl⟩ := build_eq_ok.mp hb
  obtain ⟨hd', rfl⟩ := build_eq_ok.mp hb'
  have hg := hd.wellFormed
  have hg' := hd'.wellFormed
  have htwins := h.twins hd
  refine ⟨h.fingerprint_eq hd, ⟨?_, ?_⟩, ?_⟩
  · rintro ⟨c, hc⟩
    exact Compiled.exists_compile_of_twins hg hg' htwins hc
  · rintro ⟨c', hc'⟩
    exact Compiled.exists_compile_of_twins hg' hg htwins.symm hc'
  intro c c' hc hc'
  refine ⟨Table.nodup_byName hg (Compiled.build_of_compile hc), Compiled.byName_perm hg hg' htwins hc hc', ?_⟩
  intro l hm hs
  have hm := Layout.modulus_ne_zero hm
  have halike := h.alike hd hc hc' l
  have halike' := h.symm.alike hd' hc' hc l
  refine ⟨⟨?_, ?_⟩, fun t t' hp hp' => halike.lookup_eq hm hs hp hp'⟩
  · rintro ⟨t, hp⟩
    exact halike.exists_pack hm hs hp
  · rintro ⟨t', hp'⟩
    exact halike'.exists_pack hm hs hp'

/-- Two optional letters, with the declarations and the rules mixed. -/
def optionalPairMixed : Draft where
  start := "pair"
  terminals := ["b", "a"]
  rules := [("second", ["b"]), ("first", ["a"]), ("pair", ["first", "second"]), ("second", []), ("first", [])]

theorem reorders_optionalPairMixed : optionalPair.Reorders optionalPairMixed where
  start := rfl
  terminals := by
    intro name
    simp [optionalPair, optionalPairMixed, or_comm]
  alternatives := by
    intro lhs
    by_cases hp : "pair" = lhs
    · subst hp
      decide
    by_cases hf : "first" = lhs
    · subst hf
      decide
    by_cases hs : "second" = lhs
    · subst hs
      decide
    simp [alternatives, optionalPair, optionalPairMixed, hp, hf, hs]

theorem Reorders.same_at_every_stage_optionalPair : optionalPair.Reorders optionalPairMixed ∧
    ∃ g' c' t t', optionalPairMixed.build = .ok g' ∧ Compiled.compile g' = .ok c' ∧
      PackedTable.pack optionalPair.grammar Compiled.optionalPair.table Layout.optionalPair = .ok t ∧
      PackedTable.pack g' c'.table Layout.optionalPair = .ok t' ∧ ∀ i j, t.lookup i j = t'.lookup i j := by
  obtain ⟨hbuild, hall⟩ := reorders_optionalPairMixed.same_at_every_stage
  obtain ⟨g', hb'⟩ := hbuild.mp ⟨_, build_optionalPair⟩
  obtain ⟨-, hcompile, htables⟩ := hall _ g' build_optionalPair hb'
  obtain ⟨c', hc'⟩ := hcompile.mp ⟨_, Compiled.compile_optionalPair⟩
  obtain ⟨-, -, hlayouts⟩ := htables _ c' Compiled.compile_optionalPair hc'
  obtain ⟨hpack, hlookup⟩ := hlayouts Layout.optionalPair (by decide) (by decide)
  obtain ⟨t, ht⟩ := PackedTable.exists_pack_optionalPair
  obtain ⟨t', ht'⟩ := hpack.mp ⟨t, ht⟩
  exact ⟨reorders_optionalPairMixed, g', c', t, t', hb', hc', ht, ht', hlookup t t' ht ht'⟩

end Draft

end Predictive
