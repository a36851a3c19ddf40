import Predictive.Proofs.Search.Rounds

/-!
# Trials that fail in rounds

Nothing of a round is handed on before all of its trials are made. So a trial that fails ends the search without the
improvements that the trials before it in the same round found: what the sink has received are records of the full
rounds before (`Search.failing_trial_costs_its_round`). The best of all trials before the one that fails was handed on
exactly if it is in one of these rounds. That is always so if each round has one trial, and may not be so if it has two
(`Search.not_bestHandedOn_letterPair`).
-/

namespace Predictive

variable {σ : Type}

/-! ### The best of some trials -/

namespace Problem

variable {p : Problem} {o : Nat → Orders} {s : SearchState}

theorem mem_records {bound : ℕ∞} {n : Nat} {l : Layout} : l ∈ p.records o bound n ↔
    ∃ k < n, IsRecord (fun k => p.least (o k)) bound k ∧ p.record (o k) = l := by
  simp [records, and_assoc]

/-- The last record has the least modulus. -/
private theorem exists_getLast?_records {n k : Nat} (h : Wins (fun k => p.least (o k)) s.toBeat n k) :
    ∃ l, (p.records o s.toBeat n).getLast? = some l ∧ (l.modulus.toNat : ℕ∞) = p.least (o k) := by
  rcases best_after (p := p) (o := o) (s := s) n with ⟨j, hj, hbest⟩ | ⟨hnone, -⟩
  · have hmodulus : ((p.record (o j)).modulus.toNat : ℕ∞) = p.least (o k) := by
      rw [modulus_record hj.below]
      exact le_antisymm (hj.least k h.lt) (h.least j hj.lt)
    rw [after] at hbest
    cases hlast : (p.records o s.toBeat n).getLast? with
    | some l =>
      rw [hlast, Option.some_or] at hbest
      exact ⟨l, rfl, Option.some.inj hbest ▸ hmodulus⟩
    | none =>
      -- the best layout would be the old one, which the winner beats
      rw [hlast, Option.none_or] at hbest
      have hbeat := toBeat_of_some hbest
      rw [hmodulus] at hbeat
      exact absurd h.below (hbeat ▸ lt_irrefl _)
  · exact absurd h.below (not_lt.mpr (hnone k h.lt))

end Problem

namespace Search

variable {p : Problem}

/-- If one of the first `n` trials beats the best layout so far, a layout with the least modulus of these trials was
handed on. -/
def BestHandedOn (p : Problem) (o : Nat → Orders) (s : SearchState) (n : Nat) (handed : List Layout) : Prop :=
  ∀ k, Problem.Wins (fun k => p.least (o k)) s.toBeat n k →
    ∃ l ∈ handed, (l.modulus.toNat : ℕ∞) = p.least (o k)

variable {o : Nat → Orders} {s : SearchState} {m n : Nat} {handed : List Layout}

theorem Thinned.bestHandedOn (h : Thinned (p.records o s.toBeat n) handed) : BestHandedOn p o s n handed := by
  intro k hk
  obtain ⟨l, hlast, hmodulus⟩ := Problem.exists_getLast?_records hk
  exact ⟨l, List.mem_of_getLast? (h.getLast?.trans hlast), hmodulus⟩

/-- Of more trials the best was handed on exactly if it is one of the first. -/
private theorem Thinned.bestHandedOn_iff (h : Thinned (p.records o s.toBeat m) handed) (hmn : m ≤ n) :
    BestHandedOn p o s n handed ↔ ∀ k, Problem.Wins (fun k => p.least (o k)) s.toBeat n k → k < m := by
  constructor
  · intro hbest k hk
    obtain ⟨l, hl, hmodulus⟩ := hbest k hk
    obtain ⟨j, hj, hrecord, rfl⟩ := Problem.mem_records.mp (h.sublist.subset hl)
    rw [Problem.modulus_of_isRecord hrecord] at hmodulus
    by_contra hle
    exact absurd hmodulus (hk.first j (by omega)).ne'
  · intro hearly k hk
    have hkm := hearly k hk
    exact h.bestHandedOn k ⟨hkm, hk.below, fun j hj => hk.least j (by omega), hk.first⟩

/-- The layouts that a search in rounds hands to its sink. -/
def handedOn (p : Problem) (options : SearchOptions) (accept : Sink σ) (orders : Nat → Orders) (s : SearchState)
    (sink : σ) : List Layout :=
  (runRounds p options accept.logged orders s (sink, [])).sink.2

/-- A trial that fails ends a search in rounds, unless the sink does before. Then some of the records of the full rounds
before it were handed on, with the same last one, so the best layout of these rounds was. The best of all trials before
the one that fails was handed on exactly if no trial of its own round beats those rounds, which no trial can do
if each round has one trial. -/
theorem failing_trial_costs_its_round (hs : p.shift.toNat < 64) (options : SearchOptions) (accept : Sink σ)
    (orders : Nat → Orders) (s : SearchState) (sink : σ) {k : Nat} (hk : k < s.budget options.maxTrials)
    (hno : ∀ j < k, ¬ p.Collides (ordersLeft orders s j)) (hcol : p.Collides (ordersLeft orders s k))
    (haccepted : (accept.feed (handedOn p options accept orders s sink) sink).1 = .ok ()) :
    (∃ first second,
      (∀ bound stamps, p.trial (ordersLeft orders s k) bound stamps =
        .error (.rawCollision first second p.shift.toNat)) ∧
      (runRounds p options accept orders s sink).outcome = .error (.rawCollision first second p.shift.toNat)) ∧
    Thinned (p.records (ordersLeft orders s) s.toBeat (inFullRounds options.workers k))
      (handedOn p options accept orders s sink) ∧
    BestHandedOn p (ordersLeft orders s) s (inFullRounds options.workers k)
      (handedOn p options accept orders s sink) ∧
    (BestHandedOn p (ordersLeft orders s) s k (handedOn p options accept orders s sink) ↔
      ∀ j, Problem.Wins (fun j => p.least (ordersLeft orders s j)) s.toBeat k j →
        j < inFullRounds options.workers k) ∧
    (options.workers ≤ 1 → BestHandedOn p (ordersLeft orders s) s k (handedOn p options accept orders s sink)) := by
  obtain ⟨first, second, herror⟩ := Problem.trial_of_collides hs hcol
  obtain ⟨ls, hthin, -, hends⟩ := roundsHandOn_of_fails hs accept.logged hk hk hno herror
  obtain ⟨hsink, houtcome⟩ := hends (sink, [])
  -- all that was due was accepted, so all of it was listed
  obtain ⟨listed, -, hlisted, hfed⟩ := accept.exists_prefix_feed_logged ls sink []
  have hhanded : handedOn p options accept orders s sink = listed := by
    rw [handedOn, runRounds, hsink, hlisted, List.nil_append]
  have hfeed : (accept.feed ls sink).1 = .ok () := by rw [← hfed, ← hhanded, haccepted]
  rw [Sink.feed_logged hfeed, List.nil_append] at hsink houtcome
  have hlist : handedOn p options accept orders s sink = ls := congrArg Prod.snd hsink
  have hrun : (runRounds p options accept orders s sink).outcome =
      .error (.rawCollision first second p.shift.toNat) := by
    rw [runRounds, ← forget_roundsFrom p accept options orders _ s sink []]
    exact houtcome
  rw [hlist]
  have hle : inFullRounds options.workers k ≤ k := Nat.div_mul_le_self k _
  have hiff := hthin.bestHandedOn_iff hle
  refine ⟨⟨first, second, herror, hrun⟩, hthin, hthin.bestHandedOn, hiff, ?_⟩
  intro hworkers
  have hone : inFullRounds options.workers k = k := by
    rw [inFullRounds, Nat.max_eq_right hworkers, Nat.div_one, Nat.mul_one]
  exact hone ▸ hthin.bestHandedOn

end Search

/-! ### Two letters -/

/-- A letter and another one after it. -/
def Draft.letterPair : Draft where
  start := "pair"
  terminals := ["a", "b"]
  rules := [("pair", ["a", "second"]), ("second", ["b"])]

/-- Its sets and its table, with a key for each nonterminal. -/
def Compiled.letterPair : Compiled where
  grammar := Draft.letterPair.grammar
  analysis := ⟨⟨[⟨[0], false⟩, ⟨[1], false⟩]⟩, ⟨[[2], [2]]⟩⟩
  table := ⟨[((0, 0), .expand 0), ((1, 1), .expand 1)]⟩

theorem Compiled.compile_letterPair :
    Draft.letterPair.build = .ok Draft.letterPair.grammar ∧
      Compiled.compile Draft.letterPair.grammar = .ok Compiled.letterPair :=
  ⟨by decide +kernel, by decide +kernel⟩

namespace Search

/-- The search for layouts of two letters, with no bits to tell the symbols apart. -/
def letterPairProblem : Problem := Problem.of Draft.letterPair.grammar Compiled.letterPair.table 0

private theorem not_collides_letterPair (seed : UInt64) {n : Nat}
    (h : ∀ j < n, ∀ major ∈ [Major.nonterminal, .terminal],
      (letterPairProblem.hashes (trialOrders .standard Draft.letterPair.grammar seed j) major).Nodup) :
    ∀ j < n, ¬ letterPairProblem.Collides (ordersLeft (trialOrders .standard Draft.letterPair.grammar seed) {} j) := by
  rw [ordersLeft_new]
  rintro j hj ⟨major, hdup⟩
  exact hdup (h j hj major (by cases major <;> simp))

/-- With this seed the last of four trials fails, in the second round of two. The first round has handed on a layout with
two buckets. -/
theorem failing_trial_costs_its_round_letterPair :
    (∃ first second, (runParallel .standard letterPairProblem { seed := 1, workers := 2, maxTrials := some 4 } Sink.keep {}
      []).outcome = .error (.rawCollision first second 0)) ∧
    BestHandedOn letterPairProblem (trialOrders .standard Draft.letterPair.grammar 1) {} 2
      (handedOn letterPairProblem { seed := 1, workers := 2, maxTrials := some 4 } Sink.keep
        (trialOrders .standard Draft.letterPair.grammar 1) {} []) ∧
    (handedOn letterPairProblem { seed := 1, workers := 2, maxTrials := some 4 } Sink.keep
        (trialOrders .standard Draft.letterPair.grammar 1) {} []).map (·.modulus) = [2] := by
  have hshift : letterPairProblem.shift.toNat < 64 := by decide
  have hcol : letterPairProblem.Collides (ordersLeft (trialOrders .standard Draft.letterPair.grammar 1) {} 3) := by
    rw [ordersLeft_new]
    exact ⟨.nonterminal, by decide +kernel⟩
  obtain ⟨⟨first, second, -, houtcome⟩, -, hbest, -⟩ :=
    failing_trial_costs_its_round hshift { seed := 1, workers := 2, maxTrials := some 4 } Sink.keep
      (trialOrders .standard Draft.letterPair.grammar 1) {} [] (k := 3) (by decide)
      (not_collides_letterPair 1 (by decide +kernel)) hcol (Sink.accepts_keep.feed _ _)
  rw [ordersLeft_new] at hbest
  exact ⟨⟨first, second, houtcome⟩, hbest, by decide +kernel⟩

/-- The first trial finds a layout with three buckets and the second one fails. Made in one round they leave the sink
with nothing, though each in a round of its own hands the layout on. -/
theorem not_bestHandedOn_letterPair :
    Compiled.compile Draft.letterPair.grammar = .ok Compiled.letterPair ∧
    (∃ first second, (runParallel .standard letterPairProblem { workers := 2, maxTrials := some 2 } Sink.keep {} []).outcome =
      .error (.rawCollision first second 0)) ∧
    ¬ letterPairProblem.Collides (trialOrders .standard Draft.letterPair.grammar 0 0) ∧
    letterPairProblem.Collides (trialOrders .standard Draft.letterPair.grammar 0 1) ∧
    (runParallel .standard letterPairProblem { workers := 2, maxTrials := some 2 } Sink.keep {} []).sink = [] ∧
    ¬ BestHandedOn letterPairProblem (trialOrders .standard Draft.letterPair.grammar 0) {} 1
      (runParallel .standard letterPairProblem { workers := 2, maxTrials := some 2 } Sink.keep {} []).sink ∧
    (runParallel .standard letterPairProblem { workers := 1, maxTrials := some 2 } Sink.keep {} []).sink.map (·.modulus) =
      [3] := by
  have hno : ¬ letterPairProblem.Collides (trialOrders .standard Draft.letterPair.grammar 0 0) := by
    have hclear := not_collides_letterPair 0 (n := 1) (by decide +kernel) 0 (by decide)
    rwa [ordersLeft_new] at hclear
  have hnothing : (runParallel .standard letterPairProblem { workers := 2, maxTrials := some 2 } Sink.keep {} []).sink = [] := by
    decide +kernel
  refine ⟨Compiled.compile_letterPair.2, ?_, hno, ⟨.nonterminal, by decide +kernel⟩, hnothing, ?_, by decide +kernel⟩
  · exact ⟨"pair, a", "second, b", by decide +kernel⟩
  · intro hbest
    -- three buckets separate the keys, so the first trial wins
    have hapart : letterPairProblem.Apart (trialOrders .standard Draft.letterPair.grammar 0 0) .nonterminal 3 := by
      decide +kernel
    have hle : letterPairProblem.least (trialOrders .standard Draft.letterPair.grammar 0 0) ≤ (3 : Nat) :=
      sInf_le ⟨3, rfl, .nonterminal, hapart⟩
    have hwins : Problem.Wins (fun k => letterPairProblem.least (trialOrders .standard Draft.letterPair.grammar 0 k))
        (SearchState.toBeat {}) 1 0 := by
      refine ⟨by decide, hle.trans_lt (ENat.natCast_lt_top 3), ?_, by simp⟩
      intro j hj
      obtain rfl : j = 0 := Nat.lt_one_iff.mp hj
      exact le_rfl
    obtain ⟨l, hl, -⟩ := hbest 0 hwins
    rw [hnothing] at hl
    cases hl

end Search

end Predictive
