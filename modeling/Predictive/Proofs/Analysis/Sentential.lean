import Predictive.Proofs.Analysis.Follow
import Predictive.Proofs.Grammar.Draft

/-!
# FOLLOW sets and sentential forms

The three rules for what can come after a nonterminal (`Grammar.Follows`) are told here by derivations. The end marker
comes after a nonterminal that ends some sentential form of the start symbol, and another terminal comes after one if
the two stand side by side in something that a nonterminal derives (`Grammar.follows_iff_derives`). The nonterminal that
derives it need not be one that the start symbol leads to: the rules look at all productions.

So FOLLOW of a grammar is what stands right after a nonterminal (`FollowSets.exact_successors`), and the walks behind it
come to an end, whatever cycles the edges run through.
-/

namespace Predictive

namespace Grammar

variable {g : Grammar}

/-! ### From derivations to the rules -/

/-- What holds of the parts of a sentential form holds of those of each form that it derives. -/
theorem FollowSafeBefore.derives {ends : Terminal → Prop} {u v : List Symbol} (h : g.FollowSafeBefore ends u)
    (hd : g.Derives u v) : g.FollowSafeBefore ends v := by
  induction hd with
  | refl => exact h
  | tail _ hs ih =>
    cases hs with
    | replace a b p hp => exact ih.replace hp

/-- A terminal that stands right after a nonterminal follows it. -/
theorem Follows.of_derives {m n : Nonterminal} {t : Terminal} {u v : List Symbol}
    (h : g.Derives [.nonterminal m] (u ++ .nonterminal n :: .terminal t :: v)) : g.Follows n t := by
  have hsafe : g.FollowSafeBefore (fun _ => False) [.nonterminal m] := followSafeBefore_singleton (by simp)
  obtain ⟨hnext, -⟩ := hsafe.derives h u n (.terminal t :: v) rfl
  exact hnext t ⟨v, .refl _⟩

/-- The end marker follows a nonterminal that ends a sentential form. -/
theorem Follows.eof_of_derives {n : Nonterminal} {u : List Symbol}
    (h : g.Derives [.nonterminal g.start] (u ++ [.nonterminal n])) : g.Follows n g.eof := by
  have hsafe := followSafe_iff.mp (followSafe_start (g := g))
  obtain ⟨-, hend⟩ := hsafe.derives h u n [] rfl
  exact hend vanishes_nil g.eof rfl

/-! ### From the rules to derivations -/

/-- A form with a nonterminal of the left-hand side derives one with a nonterminal of the alternative, where all that
stands behind it in the alternative vanishes. -/
private theorem derives_inherit {s : List Symbol} {p : Production} {u v a b : List Symbol} {n : Nonterminal}
    (hp : p ∈ g.productions) (hr : p.rhs = u ++ .nonterminal n :: v) (hv : g.Vanishes v)
    (h : g.Derives s (a ++ .nonterminal p.lhs :: b)) : g.Derives s ((a ++ u) ++ .nonterminal n :: b) := by
  have hstep : g.Derives s (a ++ p.rhs ++ b) := h.tail (Step.replace a b p hp)
  have hsuffix : g.Derives (v ++ b) b := by simpa using Derives.append_right hv b
  have hdrop := hsuffix.append_left (a ++ u ++ [.nonterminal n])
  refine hstep.trans ?_
  simpa [hr] using hdrop

private theorem exists_derives_of_follows (hg : g.WellFormed) {n : Nonterminal} {t : Terminal} (h : g.Follows n t) :
    (t = g.eof ∧ ∃ u, g.Derives [.nonterminal g.start] (u ++ [.nonterminal n])) ∨
      (t ≠ g.eof ∧ ∃ m < g.nonterminals.length, ∃ u v,
        g.Derives [.nonterminal m] (u ++ .nonterminal n :: .terminal t :: v)) := by
  induction h with
  | start => exact Or.inl ⟨rfl, [], .refl _⟩
  | @next p u v n t hp hr ht =>
    obtain ⟨w, hw⟩ := ht
    -- no derivation brings in the end marker
    have hmark : g.Markless v := by
      have hrhs := hg.markless_rhs hp
      rw [hr] at hrhs
      exact hrhs.right.tail
    have hlt : t < g.eof := hw.markless hg hmark t (by simp)
    have hform : g.Derives [.nonterminal p.lhs] (u ++ .nonterminal n :: v) := hr ▸ Derives.production hp
    have hnext := hw.append_left (u ++ [.nonterminal n])
    refine Or.inr ⟨Nat.ne_of_lt hlt, p.lhs, hg.lhs_lt p hp, u, w, hform.trans ?_⟩
    simpa using hnext
  | @inherit p u v n t hp hr hv _ ih =>
    rcases ih with ⟨rfl, a, ha⟩ | ⟨hne, m, hm, a, b, hab⟩
    · exact Or.inl ⟨rfl, a ++ u, derives_inherit hp hr hv ha⟩
    · exact Or.inr ⟨hne, m, hm, a ++ u, b, derives_inherit hp hr hv hab⟩

/-- What follows a nonterminal, by derivations: the end marker and the other terminals. -/
theorem follows_iff_derives (hg : g.WellFormed) {n : Nonterminal} :
    (g.Follows n g.eof ↔ ∃ u, g.Derives [.nonterminal g.start] (u ++ [.nonterminal n])) ∧
      ∀ t, t ≠ g.eof → (g.Follows n t ↔ ∃ m < g.nonterminals.length, ∃ u v,
        g.Derives [.nonterminal m] (u ++ .nonterminal n :: .terminal t :: v)) := by
  constructor
  · constructor
    · intro h
      rcases exists_derives_of_follows hg h with ⟨-, hform⟩ | ⟨hne, -⟩
      · exact hform
      · exact absurd rfl hne
    · rintro ⟨u, hu⟩
      exact .eof_of_derives hu
  · intro t hne
    constructor
    · intro h
      rcases exists_derives_of_follows hg h with ⟨heq, -⟩ | ⟨-, hform⟩
      · exact absurd heq hne
      · exact hform
    · rintro ⟨m, -, u, v, huv⟩
      exact .of_derives huv

end Grammar

/-- FOLLOW of a nonterminal has exactly what stands right after it in what nonterminals derive, and the end marker where
it ends a sentential form; and the walk that collects it ends at a depth of no more than the nonterminals there are. -/
theorem FollowSets.exact_successors {d : Draft} {g : Grammar} {first : FirstSets} (hb : d.build = .ok g)
    (h : FirstSets.compute g = .ok first) {n : Nonterminal} (hn : n < g.nonterminals.length) :
    (g.eof ∈ (compute g first).of n ↔ ∃ u, g.Derives [.nonterminal g.start] (u ++ [.nonterminal n])) ∧
    (∀ t, t ≠ g.eof → (t ∈ (compute g first).of n ↔ ∃ m < g.nonterminals.length, ∃ u v,
      g.Derives [.nonterminal m] (u ++ .nonterminal n :: .terminal t :: v))) ∧
    ∀ depth, g.nonterminals.length < depth →
      Walk.visit? (fun m => (FollowEdges.ofGrammar g first).includes.getD m []) depth {} n =
        some ((FollowEdges.ofGrammar g first).walk n) := by
  obtain ⟨hlegal, rfl⟩ := Draft.build_eq_ok.mp hb
  have hg := hlegal.wellFormed
  obtain ⟨heof, hother⟩ := Grammar.follows_iff_derives hg (n := n)
  refine ⟨?_, ?_, ?_⟩
  · rw [mem_of hg h]
    exact heof
  · intro t hne
    rw [mem_of hg h]
    exact hother t hne
  · intro depth hdepth
    have hsize : (FollowEdges.ofGrammar d.grammar first).direct.length = d.grammar.nonterminals.length :=
      FollowEdges.length_direct
    exact Walk.visit?_eq_run (FollowEdges.includes_lt hg) (hsize ▸ hn) (hsize ▸ hdepth)

/-! ### Nonterminals that follow each other -/

/-- A list of items that goes on through two nonterminals in turn, and a remark that nothing leads to. -/
def Draft.alternating : Draft where
  start := "odd"
  terminals := ["item", "note"]
  rules := [("odd", ["item", "even"]), ("even", ["item", "odd"]), ("even", []), ("remark", ["odd", "note"])]

def FirstSets.alternating : FirstSets := ⟨[⟨[0], false⟩, ⟨[0], true⟩, ⟨[0], false⟩]⟩

theorem FollowSets.exact_successors_alternating :
    (compute Draft.alternating.grammar FirstSets.alternating).of 1 = [1, 2] ∧
      (∃ u, Draft.alternating.grammar.Derives [.nonterminal 0] (u ++ [.nonterminal 1])) ∧
      ∃ m < 3, ∃ u v, Draft.alternating.grammar.Derives [.nonterminal m] (u ++ .nonterminal 1 :: .terminal 1 :: v) := by
  have hb : Draft.alternating.build = .ok Draft.alternating.grammar := by decide +kernel
  have h : FirstSets.compute Draft.alternating.grammar = .ok FirstSets.alternating := by decide +kernel
  have hof : (compute Draft.alternating.grammar FirstSets.alternating).of 1 = [1, 2] := by decide +kernel
  obtain ⟨heof, hother, -⟩ := exact_successors hb h (n := 1) (by decide +kernel)
  refine ⟨hof, heof.mp ?_, (hother 1 (by decide +kernel)).mp ?_⟩
  · rw [hof]
    decide +kernel
  · rw [hof]
    decide +kernel

end Predictive
