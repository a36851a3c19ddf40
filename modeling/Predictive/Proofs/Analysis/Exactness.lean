import Predictive.Proofs.Analysis.First
import Predictive.Proofs.Grammar.Draft

/-!
# The sets of an authored grammar

A grammar that a draft yields is well-formed, so what was shown of FIRST holds of it without further conditions: as
soon as the grammar has FIRST sets, they say of every sequence of symbols, and of every nonterminal, what can come first
and whether all of it can vanish (`FirstSets.exact_of_build`). Nothing depends on whether a nonterminal derives a word at
all: what a derivation begins with is asked of its sentential forms.
-/

namespace Predictive

/-- FIRST of a sequence, and of a nonterminal, has exactly the terminals that derivations begin with, and says whether
the empty string is derived. -/
theorem FirstSets.exact_of_build {d : Draft} {g : Grammar} {first : FirstSets} (hb : d.build = .ok g)
    (h : FirstSets.compute g = .ok first) :
    (∀ (u : List Symbol) (t : Terminal), t ∈ (first.ofSequence u).terminals ↔ g.BeginsWith u t) ∧
    (∀ u : List Symbol, (first.ofSequence u).nullable = true ↔ g.Vanishes u) ∧
    (∀ (n : Nonterminal) (t : Terminal), t ∈ (first.of n).terminals ↔ g.BeginsWith [.nonterminal n] t) ∧
    ∀ n : Nonterminal, (first.of n).nullable = true ↔ g.Vanishes [.nonterminal n] := by
  obtain ⟨hlegal, rfl⟩ := Draft.build_eq_ok.mp hb
  have hg := hlegal.wellFormed
  refine ⟨?_, ?_, ?_, ?_⟩
  · intro u t
    exact mem_ofSequence hg h
  · intro u
    exact nullable_ofSequence hg h
  · intro n t
    exact mem_of hg h
  · intro n
    exact nullable_of hg h

/-! ### A grammar without words -/

/-- A number has a sign that can be missing, and digits that never end. -/
def Draft.endless : Draft where
  start := "number"
  terminals := ["-", "digit"]
  rules := [("number", ["sign", "digits"]), ("sign", ["-"]), ("sign", []), ("digits", ["digit", "digits"])]

/-- The FIRST sets of the grammar. -/
def FirstSets.endless : FirstSets := ⟨[⟨[0, 1], false⟩, ⟨[0], true⟩, ⟨[1], false⟩]⟩

theorem FirstSets.exact_endless :
    Draft.endless.grammar.BeginsWith [.nonterminal 0] 1 ∧ ¬ Draft.endless.grammar.Vanishes [.nonterminal 0] ∧
      Draft.endless.grammar.Vanishes [.nonterminal 1, .nonterminal 1] := by
  have hb : Draft.endless.build = .ok Draft.endless.grammar := by decide +kernel
  have h : FirstSets.compute Draft.endless.grammar = .ok FirstSets.endless := by decide +kernel
  obtain ⟨hbegins, hvanishes, -, hnullable⟩ := exact_of_build hb h
  refine ⟨(hbegins _ _).mp (by decide), ?_, (hvanishes _).mp (by decide)⟩
  intro hv
  exact absurd ((hnullable 0).mpr hv) (by decide)

end Predictive
