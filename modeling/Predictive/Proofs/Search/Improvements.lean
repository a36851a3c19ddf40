import Predictive.Proofs.Search.Rounds

/-!
# Improvements

However a search with a budget makes its trials, what it leaves in its sink is what handing on some records leaves there
(`Search.sink_search`). Each record improves on the state that the search started from, and is usable on its own
(`Problem.improvement_of_mem_records`).
-/

namespace Predictive

variable {σ : Type} {g : Grammar} {table : Table} {shift : UInt32}

/-- A usable layout for a shift that was made for a grammar and is better than a bound. -/
structure Improvement (g : Grammar) (table : Table) (shift : UInt32) (bound : ℕ∞) (l : Layout) : Prop where
  usable : l.Usable g table
  shift_eq : l.shift = shift
  fingerprint_eq : l.fingerprint = some g.fingerprint
  modulus_lt : (l.modulus.toNat : ℕ∞) < bound

theorem Problem.improvement_of_mem_records (hg : g.WellFormed) (hs : shift.toNat < 32) {o : Nat → Orders}
    (ho : ∀ k, (o k).Permute g) {bound : ℕ∞} {n : Nat} {l : Layout}
    (h : l ∈ (Problem.of g table shift).records o bound n) : Improvement g table shift bound l := by
  obtain ⟨k, hk, rfl⟩ := List.mem_map.mp h
  have hrecord : IsRecord (fun k => (Problem.of g table shift).least (o k)) bound k := by
    simpa using (List.mem_filter.mp hk).2
  obtain ⟨hit, hgood, hlayout⟩ := exists_good_record hrecord.1
  refine ⟨?_, rfl, rfl, ?_⟩
  · rw [hlayout]
    exact usable_layout hg hs (ho k) hgood
  · rw [modulus_of_isRecord hrecord]
    exact hrecord.1

namespace Search

variable (r : Shuffler)

theorem permute_shuffledOrders (g : Grammar) (seed : UInt64) (k : Nat) : (shuffledOrders r g seed k).Permute g := by
  unfold shuffledOrders
  induction k with
  | zero => exact Orders.permute_orders g
  | succ k ih =>
    rw [Function.iterate_succ_apply']
    exact ih.shuffleOrders r _

theorem permute_trialOrders (g : Grammar) (seed : UInt64) (k : Nat) : (trialOrders r g seed k).Permute g := by
  unfold trialOrders
  split
  · exact Orders.permute_orders g
  · exact (Orders.permute_orders g).shuffleOrders r _

/-- A search with a budget leaves its sink as handing on some improvements does. -/
theorem sink_search (table : Table) (hg : g.WellFormed) (hs : shift.toNat < 32) {options : SearchOptions} {maxTrials : Nat}
    (hmax : options.maxTrials = some maxTrials) (accept : Sink σ) (s : SearchState) (sink : σ) :
    ∃ ls, (∀ l ∈ ls, Improvement g table shift s.toBeat l) ∧
      (search r (Problem.of g table shift) options accept s sink).sink = (accept.feed ls sink).2 := by
  have hwide : (Problem.of g table shift).shift.toNat < 64 := Nat.lt_trans hs (by decide)
  have hbudget : s.budget options.maxTrials = maxTrials - s.trials := by rw [hmax, SearchState.budget]
  unfold search
  split
  · obtain ⟨k, result, -, hending⟩ := Ending.exists_of_le (n := maxTrials - s.trials)
      (o := ordersLeft (trialOrders r g options.seed) s) hwide s (Nat.zero_le _) (by simp)
    obtain ⟨m, ls, hthin, -, -, hends⟩ := roundsFrom_eq hwide accept hmax (Nat.le_refl _) hending
    refine ⟨ls, ?_, ?_⟩
    · intro l hl
      exact Problem.improvement_of_mem_records hg hs (fun j => permute_trialOrders r g options.seed _)
        (hthin.sublist.subset hl)
    · rw [runParallel, runRounds, hbudget]
      exact (hends sink).1
  · obtain ⟨k, result, -, hending⟩ := Ending.exists_of_le (n := maxTrials - s.trials)
      (o := shuffledOrders r g options.seed) hwide s (Nat.zero_le _) (by simp)
    refine ⟨(Problem.of g table shift).records (shuffledOrders r g options.seed) s.toBeat k, ?_, ?_⟩
    · intro l hl
      exact Problem.improvement_of_mem_records hg hs (permute_shuffledOrders r g options.seed) hl
    · rw [run, hbudget]
      exact (runStream_eq hwide Stamps.valid_empty hending).1

end Search

end Predictive
