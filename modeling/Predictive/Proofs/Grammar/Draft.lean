import Predictive.Grammar.Draft
import Predictive.Proofs.Positions

/-!
# Grammars of drafts

A draft yields a grammar exactly if it is legal (`Draft.build_eq_ok`): the start symbol has rules, no declared
terminal and not the end marker has any, and every name in an alternative is declared or has rules. In the grammar of
a legal draft every name of an alternative has its symbol, so that the alternatives of a nonterminal are those of its
name, read symbol by symbol (`Draft.Legal.productionsOf`). Such a grammar is well formed (`Draft.Legal.wellFormed`).
-/

namespace Predictive

namespace Vocabulary

variable {v : Vocabulary}

/-- The symbol of a name; a name of neither kind counts as a terminal out of range. -/
def symbolOf (v : Vocabulary) (name : String) : Symbol :=
  if name ∈ v.nonterminals then .nonterminal (v.nonterminals.idxOf name)
  else .terminal (v.terminals.idxOf name)

private theorem resolve_isNone {name : String} (hmark : name ≠ endMarker) :
    (v.resolve name).isNone ↔ ¬ (name ∈ v.nonterminals ∨ name ∈ v.terminals) := by
  simp [resolve, hmark, List.idxOf?_eq_none_iff]

private theorem nameIssue_eq_none {lhs name : String} : v.nameIssue lhs name = none ↔
    name ≠ endMarker ∧ (name ∈ v.nonterminals ∨ name ∈ v.terminals) := by
  unfold nameIssue
  split
  · simp [*]
  · rename_i hmark
    split
    · rename_i h
      simp [(resolve_isNone hmark).mp h]
    · rename_i h
      have hor := Classical.not_not.mp (mt (resolve_isNone hmark).mpr h)
      simp [hmark, hor]

/-- The issue of a name says that it is the end marker, or that it is of neither kind. -/
theorem nameIssue_eq_some {lhs name : String} {i : Issue} : v.nameIssue lhs name = some i ↔
    name = endMarker ∧ i = .reserved endMarker ∨
      name ≠ endMarker ∧ ¬ (name ∈ v.nonterminals ∨ name ∈ v.terminals) ∧ i = .unresolved lhs name := by
  unfold nameIssue
  split
  · simp [*, eq_comm]
  · rename_i hmark
    simp only [resolve_isNone hmark]
    split
    · simp [*, eq_comm]
    · simp [*]

theorem resolve_eq_symbolOf {name : String} (hmark : name ≠ endMarker)
    (h : name ∈ v.nonterminals ∨ name ∈ v.terminals) : v.resolve name = some (v.symbolOf name) := by
  unfold resolve symbolOf
  rw [if_neg hmark]
  split
  · rename_i hn
    simp [idxOf?_of_mem hn]
  · rename_i hn
    rw [List.idxOf?_eq_none_iff.mpr hn, idxOf?_of_mem (h.resolve_left hn)]
    rfl

end Vocabulary

namespace Grammar

variable {g : Grammar}

/-- The alternatives of a nonterminal, in order. -/
theorem map_productionsOf (n : Nonterminal) :
    (g.productionsOf n).map Prod.snd = g.productions.filter (·.lhs = n) := by
  unfold productionsOf
  generalize 0 = k
  induction g.productions generalizing k with
  | nil => rfl
  | cons p l ih =>
    rw [List.zipIdx_cons, List.filterMap_cons, List.filter_cons]
    by_cases hp : p.lhs = n <;> simp [hp, ih]

theorem mem_map_fst_productionsOf {n : Nonterminal} {id : ProductionId} :
    id ∈ (g.productionsOf n).map Prod.fst ↔ ∃ h : id < g.productions.length, g.productions[id].lhs = n := by
  simp only [List.mem_map, Prod.exists, exists_and_right, exists_eq_right, mem_productionsOf]
  constructor
  · rintro ⟨p, hp, hn⟩
    obtain ⟨h, rfl⟩ := List.getElem?_eq_some_iff.mp hp
    exact ⟨h, hn⟩
  · rintro ⟨h, hn⟩
    exact ⟨_, List.getElem?_eq_getElem h, hn⟩

/-- The alternatives of a nonterminal come in the order of their numbers. -/
theorem pairwise_productionsOf (n : Nonterminal) : ((g.productionsOf n).map Prod.fst).Pairwise (· < ·) := by
  have hsub : ((g.productionsOf n).map Prod.fst).Sublist (g.productions.zipIdx.map Prod.snd) := by
    rw [Grammar.productionsOf]
    induction g.productions.zipIdx with
    | nil => exact List.Sublist.refl _
    | cons x l ih =>
      obtain ⟨p, i⟩ := x
      rw [List.filterMap_cons, List.map_cons]
      by_cases hp : p.lhs = n
      · simpa [hp] using ih.cons_cons i
      · simpa [hp] using ih.cons i
  refine List.Pairwise.sublist hsub ?_
  rw [List.zipIdx_map_snd]
  exact List.pairwise_lt_range'

end Grammar

namespace Draft

variable {d : Draft} {g : Grammar}

/-! ### Legal drafts -/

/-- What a draft needs to yield a grammar. -/
structure Legal (d : Draft) : Prop where
  start_mem : d.start ∈ d.lefts
  terminal_not_mem : ∀ name ∈ d.terminals, name ∉ d.lefts
  mark_not_mem : endMarker ∉ d.lefts
  name_mem : ∀ lhs, ∀ alternative ∈ d.alternatives lhs, ∀ name ∈ alternative,
    name ≠ endMarker ∧ (name ∈ d.lefts ∨ name ∈ d.terminals)

/-- A left-hand side is a name that has alternatives. -/
theorem mem_lefts {lhs : String} : lhs ∈ d.lefts ↔ d.alternatives lhs ≠ [] := by
  simp only [lefts, mem_distinct, List.mem_map, alternatives, ne_eq, List.filterMap_eq_nil_iff, Prod.exists]
  constructor
  · rintro ⟨l, rhs, hm, rfl⟩ h
    exact absurd (h (l, rhs) hm) (by simp)
  · intro h
    refine Classical.byContradiction fun hnot => h ?_
    rintro ⟨l, rhs⟩ hm
    exact if_neg fun hl => hnot ⟨l, rhs, hm, hl⟩

theorem mem_vocabulary_terminals {name : String} :
    name ∈ d.vocabulary.terminals ↔ name ∈ d.terminals ∨ name = endMarker := by
  by_cases h : name = endMarker <;> simp [vocabulary, declared, h]

private theorem distinct_eq_nil {l : List Issue} : distinct l = [] ↔ l = [] := by
  cases l <;> simp [distinct]

theorem issues_eq_nil : d.issues = [] ↔ d.Legal := by
  simp only [issues, distinct_eq_nil, List.append_eq_nil_iff, List.map_eq_nil_iff, List.filter_eq_nil_iff,
    List.flatMap_eq_nil_iff, List.filterMap_eq_nil_iff, List.mem_flatten, Vocabulary.nameIssue_eq_none,
    mem_vocabulary_terminals, decide_eq_true_eq, declared, mem_distinct]
  constructor
  · rintro ⟨⟨⟨hstart, hterm⟩, hmark⟩, hname⟩
    refine ⟨?_, hterm, ?_, ?_⟩
    · exact Classical.byContradiction fun h => by simp [vocabulary, h] at hstart
    · intro h
      simp [vocabulary, h] at hmark
    · intro lhs alternative halt name hn
      have hl : lhs ∈ d.lefts := mem_lefts.mpr (List.ne_nil_of_mem halt)
      obtain ⟨hne, hor⟩ := hname lhs hl name ⟨alternative, halt, hn⟩
      exact ⟨hne, hor.imp_right fun h => h.resolve_right hne⟩
  · intro h
    refine ⟨⟨⟨if_pos h.start_mem, h.terminal_not_mem⟩, if_neg h.mark_not_mem⟩, ?_⟩
    rintro lhs - name ⟨alternative, halt, hn⟩
    obtain ⟨hne, hor⟩ := h.name_mem lhs alternative halt name hn
    exact ⟨hne, hor.imp_right Or.inl⟩

/-- A draft yields its grammar if it is legal. -/
theorem build_eq_ok : d.build = .ok g ↔ d.Legal ∧ g = d.grammar := by
  unfold build
  split
  · rename_i h
    simp [issues_eq_nil.mp h, eq_comm]
  · rename_i h
    simp [mt issues_eq_nil.mpr h]

/-! ### Symbols and names -/

theorem nodup_lefts (d : Draft) : d.lefts.Nodup := nodup_distinct _

theorem nodup_terminals (d : Draft) : d.vocabulary.terminals.Nodup := by
  refine List.nodup_append.mpr ⟨(nodup_distinct _).filter _, List.nodup_singleton _, ?_⟩
  intro a ha b hb
  simp only [List.mem_filter, decide_eq_true_eq] at ha
  exact fun h => ha.2 (h.trans (List.mem_singleton.mp hb))

theorem eof_grammar (d : Draft) : d.grammar.eof = d.vocabulary.terminals.idxOf endMarker := by
  have hnot : endMarker ∉ d.declared.filter (· ≠ endMarker) := by simp
  simp only [Grammar.eof, grammar, vocabulary, List.length_append, List.length_singleton,
    List.idxOf_append_of_notMem hnot, List.idxOf_cons_self]
  rfl

theorem terminalName_idxOf {name : String} (h : name ∈ d.vocabulary.terminals) :
    d.grammar.terminalName (d.vocabulary.terminals.idxOf name) = name := getD_idxOf h ""

theorem nonterminalName_idxOf {name : String} (h : name ∈ d.lefts) :
    d.grammar.nonterminalName (d.lefts.idxOf name) = name := getD_idxOf h ""

theorem terminalName_mem {t : Terminal} (ht : t < d.grammar.terminals.length) :
    d.grammar.terminalName t ∈ d.vocabulary.terminals := getD_mem ht ""

theorem nonterminalName_mem {n : Nonterminal} (hn : n < d.grammar.nonterminals.length) :
    d.grammar.nonterminalName n ∈ d.lefts := getD_mem hn ""

namespace Legal

variable (h : d.Legal)

include h

theorem disjoint {name : String} (hn : name ∈ d.lefts) : name ∉ d.vocabulary.terminals := by
  rw [mem_vocabulary_terminals]
  rintro (ht | rfl)
  · exact h.terminal_not_mem name ht hn
  · exact h.mark_not_mem hn

theorem resolve {lhs : String} {alternative : List String} (ha : alternative ∈ d.alternatives lhs) :
    alternative.filterMap d.vocabulary.resolve = alternative.map d.vocabulary.symbolOf := by
  rw [← List.filterMap_eq_map]
  refine List.filterMap_congr fun name hn => ?_
  obtain ⟨hmark, hor⟩ := h.name_mem lhs alternative ha name hn
  exact Vocabulary.resolve_eq_symbolOf hmark (hor.imp_right fun ht => mem_vocabulary_terminals.mpr (Or.inl ht))

theorem productions_eq : d.grammar.productions = d.lefts.zipIdx.flatMap fun (lhs, n) =>
    ((d.alternatives lhs).map (·.map d.vocabulary.symbolOf)).map (Production.mk n) := by
  show d.productions = _
  simp only [productions, List.map_map]
  refine List.flatMap_congr fun ⟨lhs, n⟩ _ => List.map_congr_left fun alternative ha => ?_
  rw [h.resolve ha]
  rfl

/-- The productions are the alternatives of the left-hand sides, read symbol by symbol. -/
theorem mem_productions {p : Production} : p ∈ d.grammar.productions ↔ ∃ lhs, ∃ alternative ∈ d.alternatives lhs,
    p = ⟨d.lefts.idxOf lhs, alternative.map d.vocabulary.symbolOf⟩ := by
  simp only [h.productions_eq, List.mem_flatMap, Prod.exists, List.map_map, List.mem_map,
    mem_zipIdx_iff_idxOf d.nodup_lefts]
  constructor
  · rintro ⟨lhs, n, ⟨-, rfl⟩, alternative, ha, rfl⟩
    exact ⟨lhs, alternative, ha, rfl⟩
  · rintro ⟨lhs, alternative, ha, rfl⟩
    exact ⟨lhs, _, ⟨mem_lefts.mpr (List.ne_nil_of_mem ha), rfl⟩, alternative, ha, rfl⟩

end Legal

/-- In a list of groups with ascending numbers, a number selects its group. -/
private theorem filter_flatMap_zipIdx (f : String → List (List Symbol)) {l : List String} {lhs : String}
    (hl : lhs ∈ l) (k : Nat) :
    ((l.zipIdx k).flatMap fun (x, n) => (f x).map (Production.mk n)).filter (·.lhs = k + l.idxOf lhs) =
      (f lhs).map (Production.mk (k + l.idxOf lhs)) := by
  induction l generalizing k with
  | nil => simp at hl
  | cons a l ih =>
    rw [List.zipIdx_cons, List.flatMap_cons, List.filter_append]
    by_cases ha : a = lhs
    · subst ha
      rw [List.idxOf_cons_self, List.filter_eq_self.mpr, List.filter_eq_nil_iff.mpr, List.append_nil]
      · rfl
      · simp only [List.mem_flatMap, List.mem_map, Prod.exists, decide_eq_true_eq]
        rintro _ ⟨x, n, hx, rhs, -, rfl⟩
        have := (List.mem_zipIdx hx).1
        simp only
        omega
      · simp
    · have hidx : k + (a :: l).idxOf lhs = k + 1 + l.idxOf lhs := by
        rw [List.idxOf_cons_ne l ha]
        omega
      rw [hidx, ih ((List.mem_cons.mp hl).resolve_left (Ne.symm ha)), List.filter_eq_nil_iff.mpr, List.nil_append]
      simp only [List.mem_map, decide_eq_true_eq]
      rintro _ ⟨rhs, -, rfl⟩
      simp only
      omega

namespace Legal

variable (h : d.Legal)

include h

/-- The alternatives of a nonterminal are those of its name, in the same order. -/
theorem productionsOf {lhs : String} (hl : lhs ∈ d.lefts) :
    (d.grammar.productionsOf (d.lefts.idxOf lhs)).map Prod.snd =
      (d.alternatives lhs).map fun alternative => ⟨d.lefts.idxOf lhs, alternative.map d.vocabulary.symbolOf⟩ := by
  rw [Grammar.map_productionsOf, h.productions_eq]
  have hfilter := filter_flatMap_zipIdx (fun lhs => (d.alternatives lhs).map (·.map d.vocabulary.symbolOf)) hl 0
  simpa [Function.comp_def] using hfilter

private theorem terminal_of_symbolOf {lhs : String} {alternative : List String} (ha : alternative ∈ d.alternatives lhs)
    {t : Terminal} (ht : .terminal t ∈ alternative.map d.vocabulary.symbolOf) : t < d.grammar.eof := by
  obtain ⟨name, hn, heq⟩ := List.mem_map.mp ht
  obtain ⟨hmark, hor⟩ := h.name_mem lhs alternative ha name hn
  unfold Vocabulary.symbolOf at heq
  split at heq
  · simp at heq
  · rename_i hleft
    have hterm : name ∈ d.vocabulary.terminals := mem_vocabulary_terminals.mpr (Or.inl (hor.resolve_left hleft))
    have hlt := List.idxOf_lt_length_of_mem hterm
    have hne : d.vocabulary.terminals.idxOf name ≠ d.grammar.eof := by
      rw [eof_grammar]
      exact fun he => hmark (idxOf_inj_of_mem hterm he)
    rw [← Symbol.terminal.inj heq]
    exact Nat.lt_of_le_of_ne (Nat.le_sub_one_of_lt hlt) hne

omit h in
private theorem nonterminal_of_symbolOf {names : List String} {n : Nonterminal}
    (hn : .nonterminal n ∈ names.map d.vocabulary.symbolOf) : n < d.lefts.length := by
  obtain ⟨name, -, heq⟩ := List.mem_map.mp hn
  unfold Vocabulary.symbolOf at heq
  split at heq
  · rename_i hleft
    rw [← Symbol.nonterminal.inj heq]
    exact List.idxOf_lt_length_of_mem hleft
  · simp at heq

/-- The grammar of a legal draft is well formed. -/
theorem wellFormed : d.grammar.WellFormed where
  terminals_nodup := d.nodup_terminals
  nonterminals_nodup := d.nodup_lefts
  disjoint := fun _ ht hn => h.disjoint hn ht
  last_terminal := by simp [grammar, vocabulary]
  start_lt := List.idxOf_lt_length_of_mem h.start_mem
  lhs_lt := by
    intro p hp
    obtain ⟨lhs, alternative, ha, rfl⟩ := h.mem_productions.mp hp
    exact List.idxOf_lt_length_of_mem (mem_lefts.mpr (List.ne_nil_of_mem ha))
  terminal_lt := by
    intro p hp t ht
    obtain ⟨lhs, alternative, ha, rfl⟩ := h.mem_productions.mp hp
    exact h.terminal_of_symbolOf ha ht
  nonterminal_lt := by
    intro p hp n hn
    obtain ⟨lhs, alternative, ha, rfl⟩ := h.mem_productions.mp hp
    exact nonterminal_of_symbolOf hn
  productive := by
    intro n hn
    have hn : n < d.lefts.length := hn
    obtain ⟨alternative, ha⟩ := List.exists_mem_of_ne_nil _ (mem_lefts.mp (List.getElem_mem hn))
    refine ⟨_, h.mem_productions.mpr ⟨_, alternative, ha, rfl⟩, ?_⟩
    exact d.nodup_lefts.idxOf_getElem n hn

end Legal

end Draft

end Predictive
