import Predictive.Grammar.Digest
import Predictive.Proofs.Grammar.Renaming
import Predictive.Proofs.Positions

/-!
# The content of a grammar

Two grammars have the same content if they say the same by name (`Grammar.SameContent`): the start symbol, the terminals,
the nonterminals, and the alternatives of each nonterminal in order, whatever the numbers of the symbols are. A digest
lays out exactly this: the start symbol, the names of the terminals, and for each nonterminal a section with its name and
its alternatives (`Grammar.digest_eq_layOut`). So grammars of the same content have the same digest
(`Grammar.SameContent.digest_eq`), and twins have the same content (`Grammar.Twins.sameContent`).
-/

namespace Predictive

/-! ### Sorted names -/

/-- Sorted names depend only on which names there are. -/
theorem mergeSort_eq_of_perm {l l' : List String} (h : l.Perm l') :
    l.mergeSort (fun a b => decide (a ≤ b)) = l'.mergeSort (fun a b => decide (a ≤ b)) := by
  have htrans : ∀ a b c : String, decide (a ≤ b) = true → decide (b ≤ c) = true → decide (a ≤ c) = true := by
    simp only [decide_eq_true_eq]
    exact fun _ _ _ => String.le_trans
  have htotal : ∀ a b : String, (decide (a ≤ b) || decide (b ≤ a)) = true := by
    simp only [Bool.or_eq_true, decide_eq_true_eq]
    exact String.le_total
  refine List.Perm.eq_of_pairwise (fun a b _ _ hab hba => ?_) (List.pairwise_mergeSort htrans htotal l)
    (List.pairwise_mergeSort htrans htotal l') ?_
  · exact String.le_antisymm (of_decide_eq_true hab) (of_decide_eq_true hba)
  · exact (List.mergeSort_perm l _).trans (h.trans (List.mergeSort_perm l' _).symm)

namespace Grammar

/-! ### Sections -/

/-- A symbol by its kind and its name. -/
inductive NamedSymbol where
  | terminal (name : String)
  | nonterminal (name : String)
deriving DecidableEq

namespace NamedSymbol

def name : NamedSymbol → String
  | terminal name => name
  | nonterminal name => name

/-- The kind and the name, as a digest has them. -/
def bytes : NamedSymbol → List UInt8
  | terminal name => 0 :: textBytes name
  | nonterminal name => 1 :: textBytes name

end NamedSymbol

/-- A nonterminal by name, and its alternatives in order. -/
structure Section where
  name : String
  alternatives : List (List NamedSymbol)
deriving DecidableEq

/-- An alternative as a digest has it. -/
def alternativeBytes (rhs : List NamedSymbol) : List UInt8 := countBytes rhs.length ++ rhs.flatMap NamedSymbol.bytes

/-- Sections one after the other, as a digest has them. -/
def layOut (sections : List Section) : List UInt8 :=
  sections.flatMap fun s => textBytes s.name ++ s.alternatives.flatMap alternativeBytes

variable (g : Grammar)

def named : Symbol → NamedSymbol
  | .terminal t => .terminal (g.terminalName t)
  | .nonterminal n => .nonterminal (g.nonterminalName n)

/-- The alternatives of a nonterminal in order, symbol by symbol in kind and name. -/
def namedAlternatives (n : Nonterminal) : List (List NamedSymbol) :=
  (g.productionsOf n).map fun q => q.2.rhs.map g.named

/-- The nonterminals in the order of their names, each with its alternatives. -/
def sections : List Section := g.sortedNonterminals.map fun n => ⟨g.nonterminalName n, g.namedAlternatives n⟩

variable {g} {g' : Grammar}

private theorem rhsBytes_eq (rhs : List Symbol) : g.rhsBytes rhs = alternativeBytes (rhs.map g.named) := by
  have hsymbol : ∀ x, g.symbolBytes x = (g.named x).bytes := by
    intro x
    cases x <;> rfl
  rw [rhsBytes, alternativeBytes, List.length_map, List.flatMap_map]
  exact congrArg (_ ++ ·) (List.flatMap_congr fun x _ => hsymbol x)

theorem digest_eq_layOut : g.digest = textBytes (g.nonterminalName g.start) ++
    ((countBytes g.sortedTerminals.length ++ g.sortedTerminals.flatMap textBytes) ++ layOut g.sections) := by
  have hlength : g.sortedTerminals.length = g.terminals.length := List.length_mergeSort _
  simp only [digest, hlength, layOut, sections, namedAlternatives, List.flatMap_map, rhsBytes_eq, List.append_assoc]

theorem namedAlternatives_eq_map (g : Grammar) (n : Nonterminal) :
    g.namedAlternatives n = ((g.productionsOf n).map Prod.snd).map fun p => p.rhs.map g.named := by
  rw [namedAlternatives, List.map_map]
  rfl

theorem mem_sections {s : Section} : s ∈ g.sections ↔
    ∃ n < g.nonterminals.length, s = ⟨g.nonterminalName n, g.namedAlternatives n⟩ := by
  simp [sections, sortedNonterminals, nonterminalIds, eq_comm]

theorem mem_nonterminals_iff_sections {name : String} :
    name ∈ g.nonterminals ↔ ∃ s ∈ g.sections, s.name = name := by
  simp only [mem_sections]
  constructor
  · intro h
    exact ⟨_, ⟨_, List.idxOf_lt_length_of_mem h, rfl⟩, getD_idxOf h ""⟩
  · rintro ⟨_, ⟨n, hn, rfl⟩, rfl⟩
    exact getD_mem hn ""

theorem map_sortedNonterminals :
    g.sortedNonterminals.map g.nonterminalName = g.nonterminals.mergeSort fun a b => decide (a ≤ b) := by
  have hnames : g.nonterminalIds.map g.nonterminalName = g.nonterminals := map_getD_range g.nonterminals ""
  have hmap : g.sortedNonterminals.map g.nonterminalName =
      (g.nonterminalIds.map g.nonterminalName).mergeSort fun a b => decide (a ≤ b) :=
    List.map_mergeSort fun _ _ _ _ => rfl
  rw [hmap, hnames]

private theorem sections_eq (hwf : g.WellFormed) : g.sections =
    (g.nonterminals.mergeSort fun a b => decide (a ≤ b)).map fun name =>
      ⟨name, g.namedAlternatives (g.nonterminals.idxOf name)⟩ := by
  rw [← g.map_sortedNonterminals, List.map_map]
  refine List.map_congr_left fun n hn => ?_
  have hlt : n < g.nonterminals.length := by simpa [sortedNonterminals, nonterminalIds] using hn
  have hidx : g.nonterminals.idxOf (g.nonterminalName n) = n := idxOf_getD hwf.nonterminals_nodup hlt ""
  simp only [Function.comp_apply, hidx]

/-! ### Same content -/

/-- Two grammars that say the same by name, in whatever order their symbols are numbered. -/
structure SameContent (g g' : Grammar) : Prop where
  start : g.nonterminalName g.start = g'.nonterminalName g'.start
  terminals : ∀ name, name ∈ g.terminals ↔ name ∈ g'.terminals
  nonterminals : ∀ name, name ∈ g.nonterminals ↔ name ∈ g'.nonterminals
  alternatives : ∀ n < g.nonterminals.length, ∀ n' < g'.nonterminals.length,
    g.nonterminalName n = g'.nonterminalName n' → g.namedAlternatives n = g'.namedAlternatives n'

/-- What a digest is laid out from is the content of a grammar. -/
theorem sameContent_iff (hwf : g.WellFormed) (hwf' : g'.WellFormed) : g.SameContent g' ↔
    g.nonterminalName g.start = g'.nonterminalName g'.start ∧ g.sortedTerminals = g'.sortedTerminals ∧
      g.sections = g'.sections := by
  constructor
  · intro h
    have hterminals : g.terminals.Perm g'.terminals :=
      (List.perm_ext_iff_of_nodup hwf.terminals_nodup hwf'.terminals_nodup).mpr h.terminals
    have hnonterminals : g.nonterminals.Perm g'.nonterminals :=
      (List.perm_ext_iff_of_nodup hwf.nonterminals_nodup hwf'.nonterminals_nodup).mpr h.nonterminals
    refine ⟨h.start, mergeSort_eq_of_perm hterminals, ?_⟩
    rw [sections_eq hwf, sections_eq hwf', mergeSort_eq_of_perm hnonterminals]
    refine List.map_congr_left fun name hname => ?_
    have hmem' : name ∈ g'.nonterminals := List.mem_mergeSort.mp hname
    have hmem : name ∈ g.nonterminals := (h.nonterminals name).mpr hmem'
    have hsame : g.nonterminalName (g.nonterminals.idxOf name) = g'.nonterminalName (g'.nonterminals.idxOf name) :=
      (getD_idxOf hmem "").trans (getD_idxOf hmem' "").symm
    rw [h.alternatives _ (List.idxOf_lt_length_of_mem hmem) _ (List.idxOf_lt_length_of_mem hmem') hsame]
  · rintro ⟨hstart, hterminals, hsections⟩
    refine ⟨hstart, ?_, ?_, ?_⟩
    · intro name
      have hsorted : name ∈ g.sortedTerminals ↔ name ∈ g'.sortedTerminals := by rw [hterminals]
      simpa only [sortedTerminals, List.mem_mergeSort] using hsorted
    · intro name
      rw [mem_nonterminals_iff_sections, mem_nonterminals_iff_sections, hsections]
    · intro n hn n' hn' hname
      have hmem : ⟨g.nonterminalName n, g.namedAlternatives n⟩ ∈ g'.sections :=
        hsections ▸ mem_sections.mpr ⟨n, hn, rfl⟩
      obtain ⟨m, hm, hsection⟩ := mem_sections.mp hmem
      obtain ⟨hm', halternatives⟩ := Section.mk.inj hsection
      obtain rfl : m = n' := getD_inj hwf'.nonterminals_nodup hm hn' (hm'.symm.trans hname)
      exact halternatives

/-- A digest tells the content of a grammar and nothing else. -/
theorem SameContent.digest_eq (h : g.SameContent g') (hwf : g.WellFormed) (hwf' : g'.WellFormed) :
    g.digest = g'.digest := by
  obtain ⟨hstart, hterminals, hsections⟩ := (sameContent_iff hwf hwf').mp h
  rw [digest_eq_layOut, digest_eq_layOut, hstart, hterminals, hsections]

/-! ### Twins -/

namespace Twins

variable {r r' : Renaming} (h : Twins r r' g g')

include h

private theorem mem_terminals {name : String} (hname : name ∈ g.terminals) : name ∈ g'.terminals := by
  have hlt := List.idxOf_lt_length_of_mem hname
  have hsame : g'.terminalName (r.terminal (g.terminals.idxOf name)) = name :=
    (h.tracks.terminal_name _ hlt).trans (getD_idxOf hname "")
  exact hsame ▸ getD_mem (h.tracks.terminal_lt _ hlt) ""

private theorem mem_nonterminals {name : String} (hname : name ∈ g.nonterminals) : name ∈ g'.nonterminals := by
  have hlt := List.idxOf_lt_length_of_mem hname
  have hsame : g'.nonterminalName (r.nonterminal (g.nonterminals.idxOf name)) = name :=
    (h.tracks.nonterminal_name _ hlt).trans (getD_idxOf hname "")
  exact hsame ▸ getD_mem (h.tracks.nonterminal_lt _ hlt) ""

private theorem named_symbol {x : Symbol} (hx : g.InRange x) : g'.named (r.symbol x) = g.named x := by
  cases x with
  | terminal t => exact congrArg NamedSymbol.terminal (h.tracks.terminal_name t hx)
  | nonterminal n => exact congrArg NamedSymbol.nonterminal (h.tracks.nonterminal_name n hx)

private theorem namedAlternatives (hwf : g.WellFormed) {n : Nonterminal} (hn : n < g.nonterminals.length) :
    g'.namedAlternatives (r.nonterminal n) = g.namedAlternatives n := by
  rw [namedAlternatives_eq_map, namedAlternatives_eq_map, h.tracks.alternatives n hn, List.map_map]
  refine List.map_congr_left fun p hp => ?_
  obtain ⟨⟨id, q⟩, hq, rfl⟩ := List.mem_map.mp hp
  have hrhs : q ∈ g.productions := List.mem_of_getElem? (g.mem_productionsOf.mp hq).1
  rw [Function.comp_apply, Renaming.production, List.map_map]
  exact List.map_congr_left fun x hx => h.named_symbol (hwf.inRange_rhs hrhs x hx)

theorem sameContent (hwf : g.WellFormed) (hwf' : g'.WellFormed) : g.SameContent g' where
  start := by rw [← h.into.start, h.tracks.nonterminal_name _ hwf.start_lt]
  terminals := fun _ => ⟨h.mem_terminals, h.symm.mem_terminals⟩
  nonterminals := fun _ => ⟨h.mem_nonterminals, h.symm.mem_nonterminals⟩
  alternatives := by
    intro n hn n' hn' hname
    have hsame : g'.nonterminalName (r.nonterminal n) = g'.nonterminalName n' :=
      (h.tracks.nonterminal_name n hn).trans hname
    obtain rfl : r.nonterminal n = n' := getD_inj hwf'.nonterminals_nodup (h.tracks.nonterminal_lt n hn) hn' hsame
    exact (h.namedAlternatives hwf hn).symm

end Twins

end Grammar

end Predictive
