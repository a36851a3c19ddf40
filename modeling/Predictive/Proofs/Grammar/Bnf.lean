import Predictive.Grammar.Load
import Predictive.Proofs.Grammar.Draft

/-!
# Grammars of BNF texts

A BNF text yields a grammar if it can be read and the draft of its rules builds (`Grammar.ofBnf_eq_ok`), whatever the
reader. The grammar of BNF rules is well formed, and every nonterminal has a name in brackets
(`Bnf.bracketed_of_build`).
-/

namespace Predictive

theorem Report.bind_eq_ok {α β : Type} {r : Report α} {f : α → Report β} {b : β} :
    (r >>= f).outcome = .ok b ↔ ∃ a, r.outcome = .ok a ∧ (f a).outcome = .ok b := by
  simp only [bind, andThen]
  cases r.outcome <;> simp

namespace Bnf

variable {rules : List Rule} {start : Option String} {g : Grammar}

/-- The left-hand sides of a draft of rules keep their brackets. -/
private theorem bracketed_of_mem_lefts {name : String} (h : name ∈ (toDraft rules start).lefts) :
    ∃ text, name = bracketed text := by
  simp only [Draft.lefts, mem_distinct, toDraft, List.mem_map, List.mem_flatMap] at h
  obtain ⟨_, ⟨r, -, _, -, rfl⟩, rfl⟩ := h
  exact ⟨r.lhs, rfl⟩

theorem wellFormed_of_build (h : (toDraft rules start).build = .ok g) : g.WellFormed := by
  obtain ⟨hlegal, rfl⟩ := Draft.build_eq_ok.mp h
  exact hlegal.wellFormed

theorem bracketed_of_build (h : (toDraft rules start).build = .ok g) :
    ∀ name ∈ g.nonterminals, ∃ text, name = bracketed text := by
  obtain ⟨-, rfl⟩ := Draft.build_eq_ok.mp h
  exact fun name => bracketed_of_mem_lefts

end Bnf

namespace Grammar

variable {read : Bnf.Reader} {text : String} {start : Option String} {g : Grammar}

theorem ofDraft_eq_ok {d : Draft} : (ofDraft d).outcome = .ok g ↔ d.build = .ok g := by
  unfold ofDraft
  cases d.build <;> simp [Report.of]

theorem ofDraft_eq_error {d : Draft} {e : Error} :
    (ofDraft d).outcome = .error e ↔ ∃ issues, d.build = .error issues ∧ e = .grammar issues := by
  unfold ofDraft
  cases d.build <;> simp [Report.of, eq_comm]

/-- Rules that were read go on as a draft. -/
theorem outcome_ofBnf {rules : List Bnf.Rule} (h : read text = some rules) :
    (ofBnf read text start).outcome = (ofDraft (Bnf.toDraft rules start)).outcome := by
  simp only [ofBnf, h]
  rfl

theorem ofBnf_eq_ok : (ofBnf read text start).outcome = .ok g ↔
    ∃ rules, read text = some rules ∧ (Bnf.toDraft rules start).build = .ok g := by
  unfold ofBnf
  cases read text with
  | none => simp [Report.of]
  | some rules => simp [Report.bind_eq_ok, Report.tell, ofDraft_eq_ok]

theorem wellFormed_of_ofBnf (h : (ofBnf read text start).outcome = .ok g) : g.WellFormed := by
  obtain ⟨rules, -, hbuild⟩ := ofBnf_eq_ok.mp h
  exact Bnf.wellFormed_of_build hbuild

end Grammar

end Predictive
