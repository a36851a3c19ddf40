import Mathlib.Data.List.Perm.Subperm
import Predictive.Layout.Numbering
import Predictive.Proofs.Positions

/-!
# Positions in a layout

A layout fits a grammar if its names are those of the grammar in another order (`Layout.Fits`). Exactly then it has a
numbering, which sends a symbol to the position of its name (`Numbering.resolve_eq_ok`, `terminalAt_ofNames`). Inside
the grammar different symbols have different positions, and every position is that of a symbol.
-/

namespace Predictive

/-- The layout orders exactly the symbols of the grammar. -/
structure Layout.Fits (l : Layout) (g : Grammar) : Prop where
  terminals : l.terminals.Perm g.terminals
  nonterminals : l.nonterminals.Perm g.nonterminals

theorem Layout.fits_iff_perm {l : Layout} {g : Grammar} :
    l.Fits g ↔ l.terminals.Perm g.terminals ∧ l.nonterminals.Perm g.nonterminals :=
  ⟨fun h => ⟨h.terminals, h.nonterminals⟩, fun h => ⟨h.1, h.2⟩⟩

namespace Numbering

variable {g : Grammar} {l : Layout} {num : Numbering}

/-- The positions of the names of a grammar in a layout. -/
def ofNames (g : Grammar) (l : Layout) : Numbering :=
  ⟨g.terminals.map l.terminals.idxOf, g.nonterminals.map l.nonterminals.idxOf⟩

/-! ### Resolving names -/

/-- Names are resolved if they are the expected ones in another order: two searches and the lengths tell. -/
theorem resolveNames_eq {kind : SymbolKind} {expected persisted : List String} (hn : expected.Nodup) :
    resolveNames kind expected persisted =
      if persisted.Perm expected then .ok (persisted.map expected.idxOf)
      else .error (.symbolMismatch kind (expected.filter (· ∉ persisted)) (persisted.filter (· ∉ expected))) := by
  have hperm : (expected.filter (· ∉ persisted) = [] ∧ persisted.filter (· ∉ expected) = [] ∧
      persisted.length = expected.length) ↔ persisted.Perm expected := by
    simp only [List.filter_eq_nil_iff, decide_eq_true_eq, Classical.not_not]
    constructor
    · rintro ⟨hmissing, -, hlength⟩
      exact ((List.subperm_of_subset hn hmissing).perm_of_length_le (Nat.le_of_eq hlength)).symm
    · intro h
      exact ⟨fun a ha => h.mem_iff.mpr ha, fun a ha => h.mem_iff.mp ha, h.length_eq⟩
  simp only [resolveNames, hperm]

/-- The positions of the numbers that names stand for are the positions of the names. -/
theorem positions_map_idxOf {expected persisted : List String} (hn : expected.Nodup)
    (h : persisted.Perm expected) : positions (persisted.map expected.idxOf) = expected.map persisted.idxOf := by
  refine List.ext_getElem (by simp [positions, h.length_eq]) fun i hi hj => ?_
  have hlt : i < expected.length := by simpa using hj
  have hkeep := idxOf_map expected.idxOf (l := persisted) (a := expected[i]) fun b hb heq =>
    idxOf_inj_of_mem (h.mem_iff.mp hb) heq
  rw [hn.idxOf_getElem] at hkeep
  simpa [positions] using hkeep

/-- A layout has a numbering if it fits, and the numbering gives the positions of the names. -/
theorem resolve_eq_ok (hg : g.WellFormed) : resolve g l = .ok num ↔ l.Fits g ∧ num = ofNames g l := by
  rw [Layout.fits_iff_perm, resolve, resolveNames_eq hg.terminals_nodup, resolveNames_eq hg.nonterminals_nodup]
  by_cases ht : l.terminals.Perm g.terminals
  · by_cases hn : l.nonterminals.Perm g.nonterminals
    · have hof : ofOrders (l.terminals.map g.terminals.idxOf) (l.nonterminals.map g.nonterminals.idxOf) =
          ofNames g l := by
        rw [ofOrders, positions_map_idxOf hg.terminals_nodup ht, positions_map_idxOf hg.nonterminals_nodup hn,
          ofNames]
      simp [ht, hn, hof, bind, Except.bind, pure, Except.pure, eq_comm]
    · simp [ht, hn, bind, Except.bind]
  · simp [ht, bind, Except.bind]

/-! ### Positions -/

theorem terminalAt_ofNames {t : Terminal} (ht : t < g.terminals.length) :
    (ofNames g l).terminalAt t = l.terminals.idxOf (g.terminalName t) := by
  simp [terminalAt, ofNames, Grammar.terminalName, ht]

theorem nonterminalAt_ofNames {n : Nonterminal} (hn : n < g.nonterminals.length) :
    (ofNames g l).nonterminalAt n = l.nonterminals.idxOf (g.nonterminalName n) := by
  simp [nonterminalAt, ofNames, Grammar.nonterminalName, hn]

private theorem idxOf_perm_inj {expected persisted : List String} (hn : expected.Nodup)
    (h : persisted.Perm expected) {i j : Nat} (hi : i < expected.length) (hj : j < expected.length)
    (heq : persisted.idxOf (expected.getD i "") = persisted.idxOf (expected.getD j "")) : i = j :=
  getD_inj hn hi hj (idxOf_inj_of_mem (h.mem_iff.mpr (getD_mem hi "")) heq)

end Numbering

namespace Layout.Fits

variable {g : Grammar} {l : Layout} (hg : g.WellFormed) (h : l.Fits g)

include hg h

/-- Different terminals have different positions. -/
theorem terminalAt_inj {t u : Terminal} (ht : t < g.terminals.length) (hu : u < g.terminals.length)
    (heq : (Numbering.ofNames g l).terminalAt t = (Numbering.ofNames g l).terminalAt u) : t = u := by
  rw [Numbering.terminalAt_ofNames ht, Numbering.terminalAt_ofNames hu] at heq
  exact Numbering.idxOf_perm_inj hg.terminals_nodup h.terminals ht hu heq

/-- Different nonterminals have different positions. -/
theorem nonterminalAt_inj {m n : Nonterminal} (hm : m < g.nonterminals.length) (hn : n < g.nonterminals.length)
    (heq : (Numbering.ofNames g l).nonterminalAt m = (Numbering.ofNames g l).nonterminalAt n) : m = n := by
  rw [Numbering.nonterminalAt_ofNames hm, Numbering.nonterminalAt_ofNames hn] at heq
  exact Numbering.idxOf_perm_inj hg.nonterminals_nodup h.nonterminals hm hn heq

omit hg in
theorem terminalAt_lt {t : Terminal} (ht : t < g.terminals.length) :
    (Numbering.ofNames g l).terminalAt t < l.terminals.length := by
  rw [Numbering.terminalAt_ofNames ht]
  exact List.idxOf_lt_length_of_mem (h.terminals.mem_iff.mpr (getD_mem ht ""))

omit hg in
theorem nonterminalAt_lt {n : Nonterminal} (hn : n < g.nonterminals.length) :
    (Numbering.ofNames g l).nonterminalAt n < l.nonterminals.length := by
  rw [Numbering.nonterminalAt_ofNames hn]
  exact List.idxOf_lt_length_of_mem (h.nonterminals.mem_iff.mpr (getD_mem hn ""))

end Layout.Fits

end Predictive
