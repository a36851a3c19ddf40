import Predictive.Proofs.Grammar.Renaming
import Predictive.Proofs.Table.Prediction

/-!
# Tables of twins

A table is read by name when the symbols of its keys and payloads are replaced by their display names
(`Table.byName`). Twins are compiled together (`Compiled.exists_compile_of_twins`), and their tables have the same
entries by name (`Compiled.byName_perm`): for every key the same alternatives claim it, and they stand in the same
order.
-/

namespace Predictive

open Grammar (Renaming Twins)

/-- What takes the place of the nonterminal, by name, or `none` if it is dropped. -/
def Prediction.byName (g : Grammar) : Prediction → Option (List String)
  | .expand id => some ((g.rhsOf id).map g.symbolName)
  | .vanish => none

namespace Table

/-- The entries of a table with the names of all symbols. -/
def byName (table : Table) (g : Grammar) : List ((String × String) × Option (List String)) :=
  table.entries.map fun ((n, t), p) => ((g.nonterminalName n, g.terminalName t), p.byName g)

variable {g : Grammar} {a : Analysis} {table : Table}

/-! ### Alternatives that claim a terminal -/

/-- What an alternative of `n` predicts for a terminal, by name. -/
private def claim (g : Grammar) (a : Analysis) (n : Nonterminal) (t : Terminal) (p : Production) :
    Option (Option (List String)) :=
  if t ∈ (a.first.ofSequence p.rhs).terminals then some (some (p.rhs.map g.symbolName))
  else if (a.first.ofSequence p.rhs).nullable ∧ t ∈ a.follow.of n then some none
  else none

/-- The predictions for a key by name depend on the alternatives only, not on their numbers. -/
private theorem byName_claimants (n : Nonterminal) (t : Terminal) :
    (claimants (candidates g a n) (a.follow.of n) t).map (fun x => x.2.byName g) =
      ((g.productionsOf n).map Prod.snd).filterMap (claim g a n t) := by
  rw [claimants, candidates, List.filterMap_map, List.map_filterMap, List.filterMap_map]
  refine List.filterMap_congr fun alternative hm => ?_
  obtain ⟨id, p⟩ := alternative
  have hid : g.rhsOf id = p.rhs := by
    rw [Grammar.rhsOf, (g.mem_productionsOf.mp hm).1]
    rfl
  simp only [Function.comp_apply, Candidate.predicts, claim]
  split
  · simp [Prediction.byName, hid]
  · split
    · rfl
    · rfl

/-- The entries by name are the first claims. -/
private theorem mem_byName (h : build g a = .ok table) {key : String × String} {payload : Option (List String)} :
    (key, payload) ∈ table.byName g ↔ ∃ n < g.nonterminals.length, ∃ t < g.terminals.length,
      key = (g.nonterminalName n, g.terminalName t) ∧
      (((g.productionsOf n).map Prod.snd).filterMap (claim g a n t)).head? = some payload := by
  simp only [byName, List.mem_map, Prod.exists, Prod.mk.injEq, ← byName_claimants, List.head?_map]
  constructor
  · rintro ⟨n, t, p, hm, hkey, rfl⟩
    obtain ⟨hn, ht, hhead⟩ := (mem_entries h).mp hm
    obtain ⟨x, hx, rfl⟩ := Option.map_eq_some_iff.mp hhead
    exact ⟨n, hn, t, ht, hkey.symm, by rw [hx, Option.map_some]⟩
  · rintro ⟨n, hn, t, ht, rfl, hhead⟩
    obtain ⟨x, hx, rfl⟩ := Option.map_eq_some_iff.mp hhead
    exact ⟨n, t, x.2, (mem_entries h).mpr ⟨hn, ht, by rw [hx, Option.map_some]⟩, rfl, rfl⟩

/-- Different keys have different names. -/
theorem nodup_byName (hg : g.WellFormed) (h : build g a = .ok table) : ((table.byName g).map Prod.fst).Nodup := by
  have hkeys : (table.byName g).map Prod.fst =
      table.keys.map fun key => (g.nonterminalName key.1, g.terminalName key.2) := by
    rw [byName, keys, List.map_map, List.map_map]
    rfl
  rw [hkeys]
  refine (nodup_keys h).map_on fun key hkey key' hkey' heq => ?_
  obtain ⟨hn, ht⟩ := key_lt h hkey
  obtain ⟨hn', ht'⟩ := key_lt h hkey'
  obtain ⟨heqn, heqt⟩ := Prod.mk.inj heq
  exact Prod.ext (getD_inj hg.nonterminals_nodup hn hn' heqn) (getD_inj hg.terminals_nodup ht ht' heqt)

end Table

namespace Compiled

/-- The analysis of a grammar that is not left-recursive. -/
private structure Analysed (g : Grammar) (a : Analysis) : Prop where
  wellFormed : g.WellFormed
  first : FirstSets.compute g = .ok a.first
  follow : a.follow = FollowSets.compute g a.first

namespace Analysed

variable {g g' : Grammar} {a a' : Analysis} (h : Analysed g a)

include h

private theorem claim_eq_none {n : Nonterminal} {t : Terminal} (ht : g.terminals.length ≤ t) {p : Production}
    (hp : p ∈ g.productions) : Table.claim g a n t p = none := by
  have hbegin : t ∉ (a.first.ofSequence p.rhs).terminals := by
    intro hm
    have hlt := ((FirstSets.mem_ofSequence h.wellFormed h.first).mp hm).terminal_lt h.wellFormed
      (h.wellFormed.markless_rhs hp)
    exact Nat.not_lt.mpr ht hlt
  have hfollow : t ∉ a.follow.of n := by
    intro hm
    rw [h.follow, FollowSets.mem_of h.wellFormed h.first] at hm
    exact Nat.not_lt.mpr ht (hm.terminal_lt h.wellFormed)
  simp [Table.claim, hbegin, hfollow]

/-- There is no conflict if no terminal of the grammar is claimed twice. -/
private theorem conflicts_eq_nil : Table.conflicts g a = [] ↔ ∀ n < g.nonterminals.length,
    ∀ t < g.terminals.length, (((g.productionsOf n).map Prod.snd).filterMap (Table.claim g a n t)).length ≤ 1 := by
  simp only [Table.conflicts_eq_nil, ← Table.byName_claimants, List.length_map]
  refine ⟨fun hall n hn t _ => hall n hn t, fun hall n hn t => ?_⟩
  by_cases ht : t < g.terminals.length
  · exact hall n hn t ht
  · -- no alternative claims a terminal that is out of range
    have hnone : ((g.productionsOf n).map Prod.snd).filterMap (Table.claim g a n t) = [] := by
      refine List.filterMap_eq_nil_iff.mpr fun p hp => h.claim_eq_none (Nat.le_of_not_lt ht) ?_
      obtain ⟨⟨id, q⟩, hq, rfl⟩ := List.mem_map.mp hp
      exact List.mem_of_getElem? (g.mem_productionsOf.mp hq).1
    have hlength := congrArg List.length (Table.byName_claimants (g := g) (a := a) n t)
    rw [hnone, List.length_map] at hlength
    simp [hlength]

variable {r r' : Renaming} (h' : Analysed g' a') (ht : Twins r r' g g')

include h' ht

private theorem claim_production {n : Nonterminal} (hn : n < g.nonterminals.length) {t : Terminal}
    (hlt : t < g.terminals.length) {p : Production} (hp : p ∈ g.productions) :
    Table.claim g' a' (r.nonterminal n) (r.terminal t) (r.production p) = Table.claim g a n t p := by
  have hrange := h.wellFormed.inRange_rhs hp
  have hbegin : r.terminal t ∈ (a'.first.ofSequence (r.production p).rhs).terminals ↔
      t ∈ (a.first.ofSequence p.rhs).terminals := by
    rw [FirstSets.mem_ofSequence h'.wellFormed h'.first, FirstSets.mem_ofSequence h.wellFormed h.first]
    exact ht.beginsWith_iff hrange hlt
  have hnull : (a'.first.ofSequence (r.production p).rhs).nullable = true ↔
      (a.first.ofSequence p.rhs).nullable = true := by
    rw [FirstSets.nullable_ofSequence h'.wellFormed h'.first, FirstSets.nullable_ofSequence h.wellFormed h.first]
    exact ht.vanishes_iff hrange
  have hfollow : r.terminal t ∈ a'.follow.of (r.nonterminal n) ↔ t ∈ a.follow.of n := by
    rw [h'.follow, h.follow, FollowSets.mem_of h'.wellFormed h'.first, FollowSets.mem_of h.wellFormed h.first]
    exact ht.follows_iff hn hlt
  have hnames : (r.production p).rhs.map g'.symbolName = p.rhs.map g.symbolName := ht.map_name hrange
  simp only [Table.claim, hbegin, hnull, hfollow, hnames]

/-- Twins have the same claims in the same order. -/
private theorem claims_eq {n : Nonterminal} (hn : n < g.nonterminals.length) {t : Terminal}
    (hlt : t < g.terminals.length) :
    ((g'.productionsOf (r.nonterminal n)).map Prod.snd).filterMap
        (Table.claim g' a' (r.nonterminal n) (r.terminal t)) =
      ((g.productionsOf n).map Prod.snd).filterMap (Table.claim g a n t) := by
  rw [ht.tracks.alternatives n hn, List.filterMap_map]
  refine List.filterMap_congr fun p hp => ?_
  obtain ⟨⟨id, q⟩, hq, rfl⟩ := List.mem_map.mp hp
  exact h.claim_production h' ht hn hlt (List.mem_of_getElem? (g.mem_productionsOf.mp hq).1)

private theorem conflicts_of_twins (hnil : Table.conflicts g a = []) : Table.conflicts g' a' = [] := by
  refine h'.conflicts_eq_nil.mpr fun n hn t hlt => ?_
  have hn' := ht.tracksBack.nonterminal_lt n hn
  have hlt' := ht.tracksBack.terminal_lt t hlt
  have hclaims := h.claims_eq h' ht hn' hlt'
  rw [ht.tracksBack.nonterminal_back n hn, ht.tracksBack.terminal_back t hlt] at hclaims
  rw [hclaims]
  exact h.conflicts_eq_nil.mp hnil _ hn' _ hlt'

private theorem mem_byName_of_twins {table table' : Table} (hb : Table.build g a = .ok table)
    (hb' : Table.build g' a' = .ok table') {entry : (String × String) × Option (List String)}
    (hm : entry ∈ table.byName g) : entry ∈ table'.byName g' := by
  obtain ⟨key, payload⟩ := entry
  obtain ⟨n, hn, t, hlt, rfl, hhead⟩ := (Table.mem_byName hb).mp hm
  refine (Table.mem_byName hb').mpr
    ⟨r.nonterminal n, ht.tracks.nonterminal_lt n hn, r.terminal t, ht.tracks.terminal_lt t hlt, ?_, ?_⟩
  · rw [ht.tracks.nonterminal_name n hn, ht.tracks.terminal_name t hlt]
  · rw [h.claims_eq h' ht hn hlt]
    exact hhead

end Analysed

/-! ### Compiled twins -/

variable {g g' : Grammar} {c c' : Compiled} {r r' : Renaming} (hg : g.WellFormed) (hg' : g'.WellFormed)
  (ht : Twins r r' g g')

include hg hg' ht

/-- A twin of a grammar that can be compiled can be compiled. -/
theorem exists_compile_of_twins (hc : compile g = .ok c) : ∃ c', compile g' = .ok c' := by
  obtain ⟨-, hf, hfo, hb⟩ := compile_eq_ok.mp hc
  have hrec : ¬ g'.LeftRecursive := fun hl =>
    (FirstSets.isOk_compute hg).mp ⟨_, hf⟩ (ht.back.leftRecursive hl)
  obtain ⟨first, hf'⟩ := (FirstSets.isOk_compute hg').mpr hrec
  let a' : Analysis := ⟨first, FollowSets.compute g' first⟩
  have hnil : Table.conflicts g' a' = [] :=
    Analysed.conflicts_of_twins ⟨hg, hf, hfo⟩ ⟨hg', hf', rfl⟩ ht (Table.build_eq_ok.mp hb).1
  have hb' : Table.build g' a' = .ok ⟨g'.nonterminalIds.flatMap (Table.rowEntries g' a')⟩ :=
    Table.build_eq_ok.mpr ⟨hnil, rfl⟩
  exact ⟨⟨g', a', _⟩, compile_eq_ok.mpr ⟨rfl, hf', rfl, hb'⟩⟩

/-- The tables of twins have the same entries by name. -/
theorem byName_perm (hc : compile g = .ok c) (hc' : compile g' = .ok c') :
    (c.table.byName g).Perm (c'.table.byName g') := by
  obtain ⟨-, hf, hfo, hb⟩ := compile_eq_ok.mp hc
  obtain ⟨-, hf', hfo', hb'⟩ := compile_eq_ok.mp hc'
  have ha : Analysed g c.analysis := ⟨hg, hf, hfo⟩
  have ha' : Analysed g' c'.analysis := ⟨hg', hf', hfo'⟩
  have hnodup := (Table.nodup_byName hg hb).of_map Prod.fst
  have hnodup' := (Table.nodup_byName hg' hb').of_map Prod.fst
  refine (List.perm_ext_iff_of_nodup hnodup hnodup').mpr fun entry => ?_
  exact ⟨ha.mem_byName_of_twins ha' ht hb hb', ha'.mem_byName_of_twins ha ht.symm hb' hb⟩

end Compiled

end Predictive
