import Mathlib.Data.Set.Function
import Mathlib.Order.Interval.Set.Defs
import Predictive.Proofs.Packed.Recognition

/-!
# Layouts that fit a grammar

A layout is resolved exactly if each of its two orders has the names of the grammar, all of them and each once
(`Layout.fits_iff_covers`). It is enough to look for names that are missing and names that are unknown, and to compare
lengths, since the names of a grammar are distinct.

The positions that are read off are then those of the names, the other way round (`Numbering.Locates`): every number of
the grammar has one, no two have the same, and each place of the order is taken. They can be written one after the
other, each at the number whose position it is, and no place is missed or left over (`Numbering.written?_eq_some`). A
layout that does not fit is refused for its terminals first (`Numbering.resolves_exactly_permutations`).
-/

namespace Predictive

/-! ### Orders of names -/

/-- A list has distinct names in another order if it has all of them, no others, and none twice. -/
private theorem perm_iff_covers {names persisted : List String} (hn : names.Nodup) : persisted.Perm names ↔
    (∀ name ∈ names, name ∈ persisted) ∧ (∀ name ∈ persisted, name ∈ names) ∧ persisted.Nodup := by
  constructor
  · intro h
    exact ⟨fun _ => h.mem_iff.mpr, fun _ => h.mem_iff.mp, h.nodup_iff.mpr hn⟩
  · rintro ⟨hall, honly, hnodup⟩
    exact (List.perm_ext_iff_of_nodup hnodup hn).mpr fun name => ⟨honly name, hall name⟩

/-- A layout fits if both its orders omit no name, add none and repeat none. -/
theorem Layout.fits_iff_covers {g : Grammar} (hg : g.WellFormed) {l : Layout} : l.Fits g ↔
    ((∀ name ∈ g.terminals, name ∈ l.terminals) ∧ (∀ name ∈ l.terminals, name ∈ g.terminals) ∧ l.terminals.Nodup) ∧
    (∀ name ∈ g.nonterminals, name ∈ l.nonterminals) ∧ (∀ name ∈ l.nonterminals, name ∈ g.nonterminals) ∧
      l.nonterminals.Nodup := by
  rw [← perm_iff_covers hg.terminals_nodup, ← perm_iff_covers hg.nonterminals_nodup]
  exact fits_iff_perm

namespace Numbering

/-! ### Writing positions -/

/-- Writes a position at a number; fails where there is no room for that number. -/
def write? (positions : List Nat) (entry : Nat × Nat) : Option (List Nat) :=
  if entry.1 < positions.length then some (positions.set entry.1 entry.2) else none

/-- The positions of the numbers of an order, written one after the other over zeros. -/
def written? (order : List Nat) : Option (List Nat) :=
  order.zipIdx.foldlM write? (List.replicate order.length 0)

/-- Distinct numbers that are in range are written each in its place, and the other places stay as they are. -/
private theorem foldlM_write? {order : List Nat} (hn : order.Nodup) (k : Nat) (before : List Nat)
    (hlt : ∀ id ∈ order, id < before.length) : ∃ after, (order.zipIdx k).foldlM write? before = some after ∧
      after.length = before.length ∧
      ∀ id, after[id]? = if id ∈ order then some (k + order.idxOf id) else before[id]? := by
  induction order generalizing k before with
  | nil => exact ⟨before, rfl, rfl, fun id => by simp⟩
  | cons a order ih =>
    obtain ⟨ha, hn⟩ := List.nodup_cons.mp hn
    have hroom : a < before.length := hlt a List.mem_cons_self
    have hrest : ∀ id ∈ order, id < (before.set a k).length := by
      intro id hid
      rw [List.length_set]
      exact hlt id (List.mem_cons_of_mem a hid)
    obtain ⟨after, hrun, hlength, hget⟩ := ih hn (k + 1) (before.set a k) hrest
    refine ⟨after, ?_, hlength.trans List.length_set, ?_⟩
    · rw [List.zipIdx_cons, List.foldlM_cons, write?, if_pos hroom]
      exact hrun
    · intro id
      rw [hget id]
      by_cases hid : id = a
      · subst hid
        rw [if_neg ha, if_pos List.mem_cons_self, List.getElem?_set_self hroom, List.idxOf_cons_self]
        rfl
      · have hshift : (a :: order).idxOf id = order.idxOf id + 1 := List.idxOf_cons_ne order (Ne.symm hid)
        simp only [List.mem_cons, hid, false_or, hshift, List.getElem?_set_ne (Ne.symm hid)]
        split
        · congr 1
          omega
        · rfl

/-- An order of all numbers below its length is written without a miss, and leaves no place empty. -/
theorem written?_eq_some {order : List Nat} (h : order.Perm (List.range order.length)) :
    written? order = some (positions order) := by
  have hmem : ∀ id, id ∈ order ↔ id < order.length := fun id => h.mem_iff.trans List.mem_range
  obtain ⟨after, hrun, hlength, hget⟩ := foldlM_write? (h.nodup_iff.mpr List.nodup_range) 0
    (List.replicate order.length 0) fun id hid => by simpa using (hmem id).mp hid
  have hafter : after = positions order := by
    refine List.ext_getElem? fun id => ?_
    rw [hget id]
    by_cases hid : id < order.length
    · simp [positions, hid, (hmem id).mpr hid]
    · simp [positions, hid, mt (hmem id).mp hid]
  rw [written?, hrun, hafter]

/-! ### Reading positions -/

/-- The positions are those of the names in a list of the same names. -/
structure Locates (positions : List Nat) (names persisted : List String) : Prop where
  length_eq : positions.length = names.length
  /-- A number has the position at which its name stands. -/
  getElem?_eq_some : ∀ id (h : id < names.length) (i : Nat), positions[id]? = some i ↔ persisted[i]? = some names[id]
  bijective : Set.BijOn (fun id => positions.getD id 0) (Set.Iio names.length) (Set.Iio names.length)
  /-- Written one after the other, the positions are the same, and each has a place. -/
  written : written? (persisted.map names.idxOf) = some positions

private theorem perm_range_of_perm {names persisted : List String} (hn : names.Nodup) (h : persisted.Perm names) :
    (persisted.map names.idxOf).Perm (List.range (persisted.map names.idxOf).length) := by
  have hself : names.map names.idxOf = List.range names.length :=
    List.ext_getElem (by simp) fun i hi hj => by simp [hn.idxOf_getElem]
  have hmap := h.map names.idxOf
  rwa [hself, ← h.length_eq, ← List.length_map (f := names.idxOf)] at hmap

theorem locates_of_perm {names persisted : List String} (hn : names.Nodup) (h : persisted.Perm names) :
    Locates (names.map persisted.idxOf) names persisted := by
  have hp : persisted.Nodup := h.nodup_iff.mpr hn
  have hget : ∀ id (hid : id < names.length) (i : Nat),
      (names.map persisted.idxOf)[id]? = some i ↔ persisted[i]? = some names[id] := by
    intro id hid i
    have hmem : names[id] ∈ persisted := h.mem_iff.mpr (List.getElem_mem hid)
    rw [List.getElem?_map, List.getElem?_eq_getElem hid, Option.map_some, Option.some.injEq,
      ← List.mk_mem_zipIdx_iff_getElem?, mem_zipIdx_iff_idxOf hp]
    exact ⟨fun heq => ⟨hmem, heq.symm⟩, fun heq => heq.2.symm⟩
  refine ⟨List.length_map _, hget, ?_, ?_⟩
  · have hat : ∀ id (hid : id < names.length),
        persisted[(names.map persisted.idxOf).getD id 0]? = some names[id] := by
      intro id hid
      refine (hget id hid _).mp ?_
      simp [hid]
    refine ⟨?_, ?_, ?_⟩
    · intro id hid
      have hlt := (List.getElem?_eq_some_iff.mp (hat id hid)).1
      rwa [h.length_eq] at hlt
    · intro id hid id' hid' heq
      have hsame : some names[id] = some names[id'] := by
        rw [← hat id hid, ← hat id' hid']
        exact congrArg (fun i => persisted[i]?) heq
      exact (hn.getElem_inj_iff).mp (Option.some.inj hsame)
    · intro i hi
      have hi : i < persisted.length := by rwa [h.length_eq]
      obtain ⟨id, hid, heq⟩ := List.getElem_of_mem (h.mem_iff.mp (List.getElem_mem hi))
      refine ⟨id, hid, ?_⟩
      have hfind := (hget id hid i).mpr (by rw [heq, List.getElem?_eq_getElem hi])
      simp only [List.getD_eq_getElem?_getD, hfind, Option.getD_some]
  · rw [written?_eq_some (perm_range_of_perm hn h), positions_map_idxOf hn h]

/-! ### Layouts that do not fit -/

theorem resolve_eq_error {g : Grammar} (hg : g.WellFormed) {l : Layout} {e : Error} : resolve g l = .error e ↔
    ¬ l.terminals.Perm g.terminals ∧ e = .symbolMismatch .terminals (g.terminals.filter (· ∉ l.terminals))
      (l.terminals.filter (· ∉ g.terminals)) ∨
    l.terminals.Perm g.terminals ∧ ¬ l.nonterminals.Perm g.nonterminals ∧
      e = .symbolMismatch .nonterminals (g.nonterminals.filter (· ∉ l.nonterminals))
        (l.nonterminals.filter (· ∉ g.nonterminals)) := by
  simp only [resolve, resolveNames_eq hg.terminals_nodup, resolveNames_eq hg.nonterminals_nodup]
  by_cases ht : l.terminals.Perm g.terminals
  · by_cases hn : l.nonterminals.Perm g.nonterminals
    · simp [ht, hn, bind, Except.bind, pure, Except.pure]
    · simp [ht, hn, bind, Except.bind, eq_comm]
  · simp [ht, bind, Except.bind, eq_comm]

/-- Whether a layout is resolved, to which positions, and with which error it is refused. -/
theorem resolves_exactly_permutations {d : Draft} {g : Grammar} (hb : d.build = .ok g) (l : Layout) :
    ((∃ num, resolve g l = .ok num) ↔ l.terminals.Perm g.terminals ∧ l.nonterminals.Perm g.nonterminals) ∧
    (l.terminals.Perm g.terminals ∧ l.nonterminals.Perm g.nonterminals ↔
      ((∀ name ∈ g.terminals, name ∈ l.terminals) ∧ (∀ name ∈ l.terminals, name ∈ g.terminals) ∧ l.terminals.Nodup) ∧
      (∀ name ∈ g.nonterminals, name ∈ l.nonterminals) ∧ (∀ name ∈ l.nonterminals, name ∈ g.nonterminals) ∧
        l.nonterminals.Nodup) ∧
    (∀ num, resolve g l = .ok num → Locates num.terminal g.terminals l.terminals ∧
      Locates num.nonterminal g.nonterminals l.nonterminals) ∧
    ∀ e, resolve g l = .error e ↔
      ¬ l.terminals.Perm g.terminals ∧ e = .symbolMismatch .terminals (g.terminals.filter (· ∉ l.terminals))
        (l.terminals.filter (· ∉ g.terminals)) ∨
      l.terminals.Perm g.terminals ∧ ¬ l.nonterminals.Perm g.nonterminals ∧
        e = .symbolMismatch .nonterminals (g.nonterminals.filter (· ∉ l.nonterminals))
          (l.nonterminals.filter (· ∉ g.nonterminals)) := by
  obtain ⟨hlegal, rfl⟩ := Draft.build_eq_ok.mp hb
  have hg := hlegal.wellFormed
  refine ⟨?_, ?_, ?_, ?_⟩
  · simp only [resolve_eq_ok hg, exists_and_left, exists_eq, and_true]
    exact Layout.fits_iff_perm
  · rw [← Layout.fits_iff_perm]
    exact Layout.fits_iff_covers hg
  · intro num hnum
    obtain ⟨h, rfl⟩ := (resolve_eq_ok hg).mp hnum
    exact ⟨locates_of_perm hg.terminals_nodup h.terminals, locates_of_perm hg.nonterminals_nodup h.nonterminals⟩
  · intro e
    exact resolve_eq_error hg

/-- A layout in other orders than the grammar has is resolved. One that gives a name twice is not, although it has all
names and no other. -/
theorem resolves_exactly_permutations_optionalPair :
    (∃ num, resolve Draft.optionalPair.grammar Layout.optionalPair = .ok num ∧
      num.terminal.length = Draft.optionalPair.grammar.terminals.length ∧ ∀ i, num.terminal[0]? = some i ↔
        Layout.optionalPair.terminals[i]? = some "a") ∧
    resolve Draft.optionalPair.grammar { Layout.optionalPair with terminals := ["$", "b", "a", "b"] } =
      .error (.symbolMismatch .terminals [] []) := by
  obtain ⟨hok, -, hlocates, -⟩ := resolves_exactly_permutations Draft.build_optionalPair Layout.optionalPair
  obtain ⟨-, -, -, herror⟩ := resolves_exactly_permutations Draft.build_optionalPair
    { Layout.optionalPair with terminals := ["$", "b", "a", "b"] }
  constructor
  · obtain ⟨num, hnum⟩ := hok.mpr (by decide +kernel)
    obtain ⟨hterminals, -⟩ := hlocates num hnum
    exact ⟨num, hnum, hterminals.length_eq, hterminals.getElem?_eq_some 0 (by decide +kernel)⟩
  · exact (herror _).mpr (Or.inl (by decide +kernel))

end Numbering

end Predictive
