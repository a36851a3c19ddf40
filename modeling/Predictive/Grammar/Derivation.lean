import Predictive.Grammar.Basic

/-!
# Derivations

`g.Derives u v` says that the sequence of symbols `u` becomes `v` when nonterminals are replaced by their
alternatives, one at a time and anywhere. The language of a grammar is what its start symbol derives, and the
left-corner relation is what its FIRST sets run along.
-/

namespace Predictive.Grammar

/-- One nonterminal is replaced by the right-hand side of one of its productions. -/
inductive Step (g : Grammar) : List Symbol → List Symbol → Prop where
  | replace (u v : List Symbol) (p : Production) (h : p ∈ g.productions) :
    Step g (u ++ .nonterminal p.lhs :: v) (u ++ p.rhs ++ v)

/-- Any number of replacements, one after the other. -/
inductive Derives (g : Grammar) : List Symbol → List Symbol → Prop where
  | refl (u : List Symbol) : Derives g u u
  | tail {u v w : List Symbol} : Derives g u v → Step g v w → Derives g u w

/-- A word of the language: the start symbol derives it. -/
def Generates (g : Grammar) (w : List Terminal) : Prop :=
  g.Derives [.nonterminal g.start] (w.map .terminal)

/-- The sequence derives the empty string. -/
def Vanishes (g : Grammar) (u : List Symbol) : Prop := g.Derives u []

/-- The sequence derives one that begins with a terminal. -/
def BeginsWith (g : Grammar) (u : List Symbol) (t : Terminal) : Prop := ∃ v, g.Derives u (.terminal t :: v)

/-- `b` stands in an alternative of `a` after symbols that derive the empty string. -/
def LeftCorner (g : Grammar) (a b : Nonterminal) : Prop :=
  ∃ p ∈ g.productions, ∃ u v, p.lhs = a ∧ p.rhs = u ++ .nonterminal b :: v ∧ g.Vanishes u

variable {g : Grammar}

theorem Step.append_left {u v : List Symbol} (h : g.Step u v) (w : List Symbol) : g.Step (w ++ u) (w ++ v) := by
  cases h with
  | replace a b p hp => simpa using Step.replace (w ++ a) b p hp

theorem Step.append_right {u v : List Symbol} (h : g.Step u v) (w : List Symbol) : g.Step (u ++ w) (v ++ w) := by
  cases h with
  | replace a b p hp => simpa using Step.replace a (b ++ w) p hp

theorem Derives.trans {u v w : List Symbol} (h₁ : g.Derives u v) (h₂ : g.Derives v w) : g.Derives u w := by
  induction h₂ with
  | refl => exact h₁
  | tail _ hs ih => exact .tail ih hs

theorem Derives.append_left {u v : List Symbol} (h : g.Derives u v) (w : List Symbol) :
    g.Derives (w ++ u) (w ++ v) := by
  induction h with
  | refl => exact .refl _
  | tail _ hs ih => exact .tail ih (hs.append_left w)

theorem Derives.append_right {u v : List Symbol} (h : g.Derives u v) (w : List Symbol) :
    g.Derives (u ++ w) (v ++ w) := by
  induction h with
  | refl => exact .refl _
  | tail _ hs ih => exact .tail ih (hs.append_right w)

/-- The parts of a sequence derive independently of each other. -/
theorem Derives.append {u u' v v' : List Symbol} (h : g.Derives u u') (h' : g.Derives v v') :
    g.Derives (u ++ v) (u' ++ v') :=
  (h.append_right v).trans (h'.append_left u')

/-- A nonterminal derives each of its alternatives. -/
theorem Derives.production {p : Production} (h : p ∈ g.productions) : g.Derives [.nonterminal p.lhs] p.rhs := by
  simpa using Derives.tail (.refl _) (Step.replace [] [] p h)

end Predictive.Grammar
