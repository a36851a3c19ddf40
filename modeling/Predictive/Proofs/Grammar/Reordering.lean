import Predictive.Proofs.Grammar.Content
import Predictive.Proofs.Grammar.Draft

/-!
# Reordered drafts

Two drafts are reorderings of each other if they have the same start symbol, declare the same terminals, and give every
left-hand side the same alternatives in the same order (`Draft.Reorders`). They are legal together, their grammars are
twins (`Draft.Reorders.twins`), so they have the same content and one fingerprint (`Draft.Reorders.fingerprint_eq`).
-/

namespace Predictive

open Grammar (Renaming Twins)

namespace Draft

variable {d d' : Draft}

/-- The drafts differ only in the order of declarations, and in how rules of different left-hand sides are mixed. -/
structure Reorders (d d' : Draft) : Prop where
  start : d.start = d'.start
  terminals : ∀ name, name ∈ d.terminals ↔ name ∈ d'.terminals
  alternatives : ∀ lhs, d.alternatives lhs = d'.alternatives lhs

/-- Every symbol of one draft gets the number that its name has in the other. -/
def renumber (d d' : Draft) : Renaming where
  terminal t := d'.vocabulary.terminals.idxOf (d.grammar.terminalName t)
  nonterminal n := d'.lefts.idxOf (d.grammar.nonterminalName n)

namespace Reorders

variable (h : d.Reorders d')

include h

theorem symm : d'.Reorders d :=
  ⟨h.start.symm, fun name => (h.terminals name).symm, fun lhs => (h.alternatives lhs).symm⟩

theorem mem_lefts {name : String} : name ∈ d.lefts ↔ name ∈ d'.lefts := by
  rw [Draft.mem_lefts, Draft.mem_lefts, h.alternatives]

theorem mem_terminals {name : String} : name ∈ d.vocabulary.terminals ↔ name ∈ d'.vocabulary.terminals := by
  rw [mem_vocabulary_terminals, mem_vocabulary_terminals, h.terminals]

theorem perm_lefts : d.lefts.Perm d'.lefts :=
  (List.perm_ext_iff_of_nodup d.nodup_lefts d'.nodup_lefts).mpr fun _ => h.mem_lefts

theorem perm_terminals : d.vocabulary.terminals.Perm d'.vocabulary.terminals :=
  (List.perm_ext_iff_of_nodup d.nodup_terminals d'.nodup_terminals).mpr fun _ => h.mem_terminals

theorem legal (hd : d.Legal) : d'.Legal where
  start_mem := h.start ▸ h.mem_lefts.mp hd.start_mem
  terminal_not_mem := fun name hn hl => hd.terminal_not_mem name ((h.terminals name).mpr hn) (h.mem_lefts.mpr hl)
  mark_not_mem := fun hl => hd.mark_not_mem (h.mem_lefts.mpr hl)
  name_mem := by
    intro lhs alternative ha name hn
    rw [← h.alternatives] at ha
    obtain ⟨hmark, hor⟩ := hd.name_mem lhs alternative ha name hn
    exact ⟨hmark, hor.imp h.mem_lefts.mp (h.terminals name).mp⟩

/-! ### The grammars are twins -/

private theorem symbol_symbolOf {name : String} (hn : name ∈ d.lefts ∨ name ∈ d.vocabulary.terminals) :
    (renumber d d').symbol (d.vocabulary.symbolOf name) = d'.vocabulary.symbolOf name := by
  unfold Vocabulary.symbolOf
  by_cases hl : name ∈ d.lefts
  · have hl' : name ∈ d'.lefts := h.mem_lefts.mp hl
    have hvoc : name ∈ d.vocabulary.nonterminals := hl
    have hvoc' : name ∈ d'.vocabulary.nonterminals := hl'
    rw [if_pos hvoc, if_pos hvoc']
    exact congrArg (fun x => Symbol.nonterminal (d'.lefts.idxOf x)) (nonterminalName_idxOf hl)
  · have hvoc : name ∉ d.vocabulary.nonterminals := hl
    have hvoc' : name ∉ d'.vocabulary.nonterminals := fun hl' => hl (h.mem_lefts.mpr hl')
    rw [if_neg hvoc, if_neg hvoc']
    exact congrArg (fun x => Symbol.terminal (d'.vocabulary.terminals.idxOf x))
      (terminalName_idxOf (hn.resolve_left hl))

private theorem map_symbol_symbolOf (hd : d.Legal) {lhs : String} {alternative : List String}
    (ha : alternative ∈ d.alternatives lhs) :
    (alternative.map d.vocabulary.symbolOf).map (renumber d d').symbol = alternative.map d'.vocabulary.symbolOf := by
  rw [List.map_map]
  refine List.map_congr_left fun name hn => h.symbol_symbolOf ?_
  obtain ⟨-, hor⟩ := hd.name_mem lhs alternative ha name hn
  exact hor.imp_right fun ht => mem_vocabulary_terminals.mpr (Or.inl ht)

private theorem production_alternative (hd : d.Legal) {lhs : String} {alternative : List String}
    (ha : alternative ∈ d.alternatives lhs) :
    (renumber d d').production ⟨d.lefts.idxOf lhs, alternative.map d.vocabulary.symbolOf⟩ =
      ⟨d'.lefts.idxOf lhs, alternative.map d'.vocabulary.symbolOf⟩ := by
  have hlhs : lhs ∈ d.lefts := Draft.mem_lefts.mpr (List.ne_nil_of_mem ha)
  rw [Renaming.production, h.map_symbol_symbolOf hd ha]
  exact congrArg (fun x => Production.mk (d'.lefts.idxOf x) _) (nonterminalName_idxOf hlhs)

private theorem into (hd : d.Legal) : (renumber d d').Into d.grammar d'.grammar where
  start := by
    show d'.lefts.idxOf (d.grammar.nonterminalName (d.lefts.idxOf d.start)) = d'.lefts.idxOf d'.start
    rw [nonterminalName_idxOf hd.start_mem, h.start]
  eof := by
    have hmark : endMarker ∈ d.vocabulary.terminals := mem_vocabulary_terminals.mpr (Or.inr rfl)
    show d'.vocabulary.terminals.idxOf (d.grammar.terminalName d.grammar.eof) = d'.grammar.eof
    rw [eof_grammar, eof_grammar, terminalName_idxOf hmark]
  mem_productions := by
    intro p hp
    obtain ⟨lhs, alternative, ha, rfl⟩ := hd.mem_productions.mp hp
    rw [h.production_alternative hd ha]
    exact (h.legal hd).mem_productions.mpr ⟨lhs, alternative, h.alternatives lhs ▸ ha, rfl⟩

private theorem tracks (hd : d.Legal) : (renumber d d').Tracks (renumber d' d) d.grammar d'.grammar where
  terminal_lt := fun t ht => List.idxOf_lt_length_of_mem (h.mem_terminals.mp (terminalName_mem ht))
  terminal_name := fun t ht => terminalName_idxOf (h.mem_terminals.mp (terminalName_mem ht))
  terminal_back := by
    intro t ht
    show d.vocabulary.terminals.idxOf (d'.grammar.terminalName (d'.vocabulary.terminals.idxOf _)) = t
    rw [terminalName_idxOf (h.mem_terminals.mp (terminalName_mem ht))]
    exact idxOf_getD d.nodup_terminals ht ""
  nonterminal_lt := fun n hn => List.idxOf_lt_length_of_mem (h.mem_lefts.mp (nonterminalName_mem hn))
  nonterminal_name := fun n hn => nonterminalName_idxOf (h.mem_lefts.mp (nonterminalName_mem hn))
  nonterminal_back := by
    intro n hn
    show d.lefts.idxOf (d'.grammar.nonterminalName (d'.lefts.idxOf _)) = n
    rw [nonterminalName_idxOf (h.mem_lefts.mp (nonterminalName_mem hn))]
    exact idxOf_getD d.nodup_lefts hn ""
  alternatives := by
    intro n hn
    have hleft := nonterminalName_mem hn
    have hidx : d.lefts.idxOf (d.grammar.nonterminalName n) = n := idxOf_getD d.nodup_lefts hn ""
    have hof := hd.productionsOf hleft
    rw [hidx] at hof
    show (d'.grammar.productionsOf (d'.lefts.idxOf (d.grammar.nonterminalName n))).map Prod.snd = _
    rw [(h.legal hd).productionsOf (h.mem_lefts.mp hleft), hof, ← h.alternatives, List.map_map]
    refine List.map_congr_left fun alternative ha => ?_
    have hproduction := h.production_alternative hd ha
    rw [hidx] at hproduction
    exact hproduction.symm

theorem twins (hd : d.Legal) : Twins (renumber d d') (renumber d' d) d.grammar d'.grammar :=
  ⟨h.into hd, h.symm.into (h.legal hd), h.tracks hd, h.symm.tracks (h.legal hd)⟩

/-- Reordered drafts are digested alike. -/
theorem digest_eq (hd : d.Legal) : d.grammar.digest = d'.grammar.digest := by
  have hd' := h.legal hd
  exact ((h.twins hd).sameContent hd.wellFormed hd'.wellFormed).digest_eq hd.wellFormed hd'.wellFormed

/-- Reordered drafts have one fingerprint. -/
theorem fingerprint_eq (hd : d.Legal) : d.grammar.fingerprint = d'.grammar.fingerprint :=
  congrArg Fingerprint.ofBytes (h.digest_eq hd)

end Reorders

end Draft

end Predictive
