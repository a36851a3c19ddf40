import Predictive.Proofs.Search.Records
import Predictive.Proofs.Search.Run

/-!
# Trials one after the other

A search that makes one trial after the other hands on exactly the records of its trials, in order, until one of
three things happens: the budget is used up, a trial fails, or the sink refuses a layout (`Search.runStream_eq`,
`Search.HandsOnRecords`). The search compares with the best layout so far only, tries the two symbols one after the
other with bounds that depend on each other, and keeps one set of stamps for all trials; none of this shows in what it
hands on.
-/

namespace Predictive

variable {σ τ : Type}

/-! ### Handing layouts on -/

namespace Sink

/-- Hands layouts on one after the other until one is refused. -/
def feed (accept : Sink σ) : List Layout → σ → Except Error Unit × σ
  | [], sink => (.ok (), sink)
  | l :: ls, sink =>
    match accept sink l with
    | (.ok (), sink) => feed accept ls sink
    | (.error e, sink) => (.error e, sink)

variable {accept : Sink σ}

theorem feed_append (xs ys : List Layout) (sink : σ) : accept.feed (xs ++ ys) sink =
    match accept.feed xs sink with
    | (.ok (), sink) => accept.feed ys sink
    | (.error e, sink) => (.error e, sink) := by
  induction xs generalizing sink with
  | nil => rfl
  | cons x xs ih =>
    simp only [List.cons_append, feed]
    rcases accept sink x with ⟨_ | _, sink'⟩
    · rfl
    · exact ih sink'

/-- A sink that lists what it receives has listed all of what was accepted. -/
theorem feed_logged {ls : List Layout} {sink : σ} (h : (accept.feed ls sink).1 = .ok ()) (log : List Layout) :
    accept.logged.feed ls (sink, log) = (.ok (), ((accept.feed ls sink).2, log ++ ls)) := by
  induction ls generalizing sink log with
  | nil => simp [feed]
  | cons l ls ih =>
    rcases haccept : accept sink l with ⟨_ | _, sink'⟩
    · simp [feed, haccept] at h
    · simp only [feed, haccept] at h
      simp only [feed, logged, haccept, ih h, List.append_assoc, List.singleton_append]

/-- A sink that accepts everything. -/
def Accepts (accept : Sink σ) : Prop := ∀ sink l, (accept sink l).1 = .ok ()

theorem Accepts.feed (h : accept.Accepts) (ls : List Layout) (sink : σ) : (accept.feed ls sink).1 = .ok () := by
  induction ls generalizing sink with
  | nil => rfl
  | cons l ls ih =>
    have hl := h sink l
    rw [Sink.feed]
    rcases haccept : accept sink l with ⟨_ | _, sink'⟩
    · simp [haccept] at hl
    · exact ih sink'

theorem accepts_keep : keep.Accepts := fun _ _ => rfl

/-- What is listed is a first part of what was due, as long as decides whether all of it is accepted. -/
theorem exists_prefix_feed_logged (accept : Sink σ) (ls : List Layout) (sink : σ) (log : List Layout) :
    ∃ handed, handed <+: ls ∧ (accept.logged.feed ls (sink, log)).2.2 = log ++ handed ∧
      (accept.feed handed sink).1 = (accept.feed ls sink).1 := by
  induction ls generalizing sink log with
  | nil => exact ⟨[], List.nil_prefix, by simp [feed], rfl⟩
  | cons l ls ih =>
    simp only [feed, logged]
    rcases haccept : accept sink l with ⟨_ | _, sink'⟩
    · exact ⟨[l], List.prefix_append [l] ls, rfl, by simp only [feed, haccept]⟩
    · obtain ⟨handed, hprefix, hlog, hfed⟩ := ih sink' (log ++ [l])
      refine ⟨l :: handed, (List.prefix_cons_inj l).mpr hprefix, ?_, ?_⟩
      · rw [hlog, List.append_assoc, List.singleton_append]
      · simp only [feed, haccept]
        exact hfed

/-- Nothing is listed after a layout that was refused. -/
theorem feed_logged_refused {before : List Layout} {l : Layout} {sink : σ} {e : Error}
    (h : (accept.feed before sink).1 = .ok ()) (he : (accept (accept.feed before sink).2 l).1 = .error e)
    (rest log : List Layout) : (accept.logged.feed (before ++ l :: rest) (sink, log)).1 = .error e ∧
      (accept.logged.feed (before ++ l :: rest) (sink, log)).2.2 = log ++ before ++ [l] := by
  rw [feed_append, feed_logged h]
  simp only [feed, logged]
  rw [he]
  exact ⟨rfl, rfl⟩

end Sink

namespace Search

variable {p : Problem} {accept : Sink σ}

/-- The end of a search after layouts were handed on: the refusal, or the outcome without one. -/
def EndsWith (e : SearchEnd σ) (fed : Except Error Unit × σ) (r : Except Error SearchState) : Prop :=
  e.sink = fed.2 ∧ e.outcome = fed.1 >>= fun _ => r

theorem improve?_endsWith (p : Problem) (accept : Sink σ) (s : SearchState) (l : Option Layout) (sink : σ) :
    EndsWith (improve? p accept s l sink) (accept.feed l.toList sink) (.ok { s with best := l.or s.best }) := by
  cases l with
  | none => exact ⟨rfl, rfl⟩
  | some l =>
    simp only [EndsWith, improve?, improve, Option.toList, Sink.feed]
    rcases accept sink l with ⟨_ | _, sink'⟩ <;> exact ⟨rfl, rfl⟩

/-- A row of `n` trials ends with the state after them, or with the error of the first trial that fails: the number of
trials before the end, and how it ends if nothing is refused. -/
inductive Ending (p : Problem) (o : Nat → Orders) (s : SearchState) (n : Nat) : Nat → Except Error SearchState → Prop
  | completes (h : ∀ j < n, ¬ p.Collides (o j)) : Ending p o s n n (.ok (p.after o s n))
  | fails {k : Nat} {e : Error} (hk : k < n) (h : ∀ j < k, ¬ p.Collides (o j))
    (he : ∀ bound stamps, p.trial (o k) bound stamps = .error e) : Ending p o s n k (.error e)

namespace Ending

variable {o : Nat → Orders} {s : SearchState}

theorem of_zero {k : Nat} {r : Except Error SearchState} (h : Ending p o s 0 k r) : k = 0 ∧ r = .ok s := by
  cases h with
  | completes => exact ⟨rfl, by rw [Problem.after_zero]⟩
  | fails hk => omega

variable (hs : p.shift.toNat < 64)

include hs

/-- Some trials that do not fail can be left out in front. -/
theorem drop {m n k : Nat} {r : Except Error SearchState} (hm : ∀ j < m, ¬ p.Collides (o j))
    (h : Ending p o s (m + n) k r) :
    ∃ k', k = m + k' ∧ Ending p (fun j => o (j + m)) (p.after o s m) n k' r := by
  cases h with
  | completes h =>
    refine ⟨n, rfl, ?_⟩
    rw [Problem.after_add]
    exact completes fun j hj => h (j + m) (by omega)
  | fails hk h he =>
    have hle : m ≤ k := by
      by_contra hlt
      obtain ⟨hit, stamps, htrial, -⟩ :=
        Problem.trial_of_not_collides hs (hm k (by omega)) Stamps.valid_empty none
      rw [he] at htrial
      simp at htrial
    obtain ⟨k', rfl⟩ := Nat.exists_eq_add_of_le hle
    refine ⟨k', rfl, fails (by omega) (fun j hj => h (j + m) (by omega)) ?_⟩
    simpa only [Nat.add_comm m k'] using he

/-- A row of trials ends in one of the ways, and not before a trial that fails. -/
theorem exists_of_le (s : SearchState) {m n : Nat} (hmn : m ≤ n) (hm : ∀ j < m, ¬ p.Collides (o j)) :
    ∃ k r, m ≤ k ∧ Ending p o s n k r := by
  classical
  by_cases hcol : ∃ k, k < n ∧ p.Collides (o k)
  · obtain ⟨hlt, hfirst⟩ := Nat.find_spec hcol
    have hbefore : ∀ j < Nat.find hcol, ¬ p.Collides (o j) := by
      intro j hj hj'
      exact Nat.find_min hcol hj ⟨by omega, hj'⟩
    have hle : m ≤ Nat.find hcol := by
      by_contra hlt'
      exact hm _ (by omega) hfirst
    obtain ⟨first, second, he⟩ := Problem.trial_of_collides hs hfirst
    exact ⟨_, _, hle, fails hlt hbefore he⟩
  · refine ⟨n, _, hmn, completes ?_⟩
    intro j hj hj'
    exact hcol ⟨j, hj, hj'⟩

end Ending

/-! ### Searches -/

theorem EndsWith.after {e : SearchEnd σ} {fed : Except Error Unit × σ} {r : Except Error SearchState}
    (h : EndsWith e fed r) (notes : List Note) : EndsWith (e.after notes) fed r := h

/-- Trials one after the other hand on the records of the trials before the end. -/
theorem runStream_eq (hs : p.shift.toNat < 64) {every n : Nat} {orders : τ → Orders} {next : τ → τ} {stream : τ}
    {stamps : Stamps} (hv : stamps.Valid) {s : SearchState} {sink : σ} {k : Nat} {r : Except Error SearchState}
    (h : Ending p (fun j => orders (next^[j] stream)) s n k r) :
    EndsWith (runStream p every accept orders next n stream stamps s sink)
      (accept.feed (p.records (fun j => orders (next^[j] stream)) s.toBeat k) sink) r := by
  induction n generalizing stream stamps s sink k with
  | zero =>
    obtain ⟨rfl, rfl⟩ := h.of_zero
    exact ⟨rfl, rfl⟩
  | succ n ih =>
    by_cases hcol : p.Collides (orders stream)
    · -- the first trial fails, and nothing is due before it
      have hzero : k = 0 ∧ ∃ e, r = .error e ∧ ∀ bound stamps, p.trial (orders stream) bound stamps = .error e := by
        cases h with
        | completes h => exact absurd hcol (h 0 (by omega))
        | fails hk h he =>
          cases k with
          | zero => exact ⟨rfl, _, rfl, he⟩
          | succ k => exact absurd hcol (h 0 (by omega))
      obtain ⟨rfl, e, rfl, he⟩ := hzero
      rw [runStream, he]
      exact ⟨rfl, rfl⟩
    · obtain ⟨hit, stamps', htrial, hvalid, hlayout⟩ := Problem.trial_of_not_collides hs hcol hv s.bestModulus
      obtain ⟨k', rfl, hrest⟩ := Ending.drop hs (m := 1) (fun j hj => by
        obtain rfl : j = 0 := by omega
        exact hcol) (Nat.add_comm n 1 ▸ h)
      have hrecords : p.records (fun j => orders (next^[j] stream)) s.toBeat 1 =
          (hit.map (p.layout (orders stream))).toList := by
        rw [hlayout]
        exact Problem.records_one s.toBeat
      have hstate : p.after (fun j => orders (next^[j] stream)) s 1 =
          { s with trials := s.trials + 1, best := (hit.map (p.layout (orders stream))).or s.best } := by
        rw [Problem.after, hrecords]
        cases hit <;> rfl
      have hstep := improve?_endsWith p accept { s with trials := s.trials + 1 }
        (hit.map (p.layout (orders stream))) sink
      rw [Problem.records_add, hrecords, Sink.feed_append, runStream, htrial]
      simp only
      generalize improve? p accept { s with trials := s.trials + 1 } (hit.map (p.layout (orders stream))) sink =
        step at hstep
      obtain ⟨notes, sink₁, outcome⟩ := step
      obtain ⟨rfl, rfl⟩ := hstep
      rcases hfed : accept.feed (hit.map (p.layout (orders stream))).toList sink with ⟨_ | _, sink'⟩
      · exact ⟨rfl, rfl⟩
      · rw [hstate] at hrest ⊢
        exact EndsWith.after (ih hvalid hrest) _

/-- A search with budget that makes trials one after the other, with the orders `o`, hands on the records. -/
structure HandsOnRecords (p : Problem) (accept : Sink σ) (o : Nat → Orders) (s : SearchState) (sink : σ)
    (maxTrials : Nat) (e : SearchEnd (σ × List Layout)) : Prop where
  /-- All records are handed on if no trial fails and none is refused. -/
  completed : (∀ k < maxTrials - s.trials, ¬ p.Collides (o k)) →
    (accept.feed (p.records o s.toBeat (maxTrials - s.trials)) sink).1 = .ok () →
    e.sink.2 = p.records o s.toBeat (maxTrials - s.trials) ∧
      e.outcome = .ok ⟨e.sink.2.getLast?.or s.best, max s.trials maxTrials⟩
  /-- The first trial that fails ends the search, with the records before it handed on. -/
  failed : ∀ k < maxTrials - s.trials, p.Collides (o k) → (∀ j < k, ¬ p.Collides (o j)) →
    (accept.feed (p.records o s.toBeat k) sink).1 = .ok () →
    e.sink.2 = p.records o s.toBeat k ∧ ∃ first second,
      (∀ bound stamps, p.trial (o k) bound stamps = .error (.rawCollision first second p.shift.toNat)) ∧
      e.outcome = .error (.rawCollision first second p.shift.toNat)
  /-- The first record that is refused ends the search, and is the last to be handed on. -/
  refused : ∀ k ≤ maxTrials - s.trials, (∀ j < k, ¬ p.Collides (o j)) → ∀ before l rest err,
    p.records o s.toBeat k = before ++ l :: rest → (accept.feed before sink).1 = .ok () →
    (accept (accept.feed before sink).2 l).1 = .error err →
    e.sink.2 = before ++ [l] ∧ e.outcome = .error err
  decreasing : e.sink.2.Pairwise fun l l' => l'.modulus < l.modulus

/-- What is left to show of a search that ends with the records before its end. -/
private theorem handsOnRecords (hs : p.shift.toNat < 64) {o : Nat → Orders} {s : SearchState} {sink : σ}
    {maxTrials : Nat} {e : SearchEnd (σ × List Layout)}
    (h : ∀ k r, Ending p o s (maxTrials - s.trials) k r →
      EndsWith e (accept.logged.feed (p.records o s.toBeat k) (sink, [])) r) :
    HandsOnRecords p accept o s sink maxTrials e where
  completed hno hfed := by
    obtain ⟨hsink, houtcome⟩ := h _ _ (.completes hno)
    rw [Sink.feed_logged hfed, List.nil_append] at hsink houtcome
    have htrials : s.trials + (maxTrials - s.trials) = max s.trials maxTrials := by omega
    rw [hsink, houtcome, ← htrials]
    exact ⟨rfl, rfl⟩
  failed k hk hcol hno hfed := by
    obtain ⟨first, second, herror⟩ := Problem.trial_of_collides hs hcol
    obtain ⟨hsink, houtcome⟩ := h _ _ (.fails hk hno herror)
    rw [Sink.feed_logged hfed, List.nil_append] at hsink houtcome
    exact ⟨congrArg Prod.snd hsink, first, second, herror, houtcome⟩
  refused k hk hno before l rest err hrecords hfed herror := by
    -- however the trials after the refused one end, its record is among those that are due
    obtain ⟨n, r, hle, hending⟩ := Ending.exists_of_le hs s hk hno
    obtain ⟨m, rfl⟩ := Nat.exists_eq_add_of_le hle
    obtain ⟨hsink, houtcome⟩ := h _ _ hending
    rw [Problem.records_add, hrecords, List.append_assoc, List.cons_append] at hsink houtcome
    obtain ⟨hrefused, hlog⟩ := Sink.feed_logged_refused hfed herror
      (rest ++ p.records (fun j => o (j + k)) (p.after o s k).toBeat m) []
    rw [hsink, houtcome, hlog, hrefused]
    exact ⟨rfl, rfl⟩
  decreasing := by
    obtain ⟨n, r, -, hending⟩ := Ending.exists_of_le hs s (Nat.zero_le _) (by simp)
    obtain ⟨handed, hprefix, hlog, -⟩ := accept.exists_prefix_feed_logged (p.records o s.toBeat n) sink []
    rw [(h _ _ hending).1, hlog, List.nil_append]
    exact (Problem.pairwise_records s.toBeat n).sublist hprefix.sublist

/-- The orders of the trials of a search with one generator. -/
def shuffledOrders (r : Shuffler) (g : Grammar) (seed : UInt64) (k : Nat) : Orders :=
  ((fun (o, source) => shuffleOrders r o source)^[k] (g.orders, r.ofSeed seed)).1

/-- A search with a budget that makes trials one after the other hands on the layouts of the records, in order, with
the least moduli of their trials: for any stream of orders, and so for the one that a shuffler makes. -/
theorem sequential_hands_on_records (hs : p.shift.toNat < 64) (maxTrials : Nat) (accept : Sink σ) (s : SearchState)
    (sink : σ) :
    (∀ (τ : Type) (every : Nat) (orders : τ → Orders) (next : τ → τ) (stream : τ),
      HandsOnRecords p accept (fun k => orders (next^[k] stream)) s sink maxTrials
        (runStream p every accept.logged orders next (s.budget (some maxTrials)) stream {} s (sink, []))) ∧
    (∀ (r : Shuffler) (options : SearchOptions), options.maxTrials = some maxTrials →
      HandsOnRecords p accept (shuffledOrders r p.grammar options.seed) s sink maxTrials
        (run r p options accept.logged s (sink, [])) ∧
      (run r p options accept.logged s (sink, [])).forget = run r p options accept s sink) ∧
    ∀ (o : Nat → Orders) (k : Nat), IsRecord (fun k => p.least (o k)) s.toBeat k →
      ((p.record (o k)).modulus.toNat : ℕ∞) = p.least (o k) := by
  have hstream : ∀ (τ : Type) (every : Nat) (orders : τ → Orders) (next : τ → τ) (stream : τ),
      HandsOnRecords p accept (fun k => orders (next^[k] stream)) s sink maxTrials
        (runStream p every accept.logged orders next (s.budget (some maxTrials)) stream {} s (sink, [])) := by
    intro τ every orders next stream
    exact handsOnRecords hs fun k r hending => runStream_eq hs Stamps.valid_empty hending
  refine ⟨hstream, ?_, fun o k hk => Problem.modulus_of_isRecord hk⟩
  intro r options hmax
  refine ⟨?_, forget_runStream _ _ _ _ _ _ _ _ _ _ _⟩
  rw [run, hmax]
  exact hstream _ _ _ _ _

/-- Of five trials with this seed, the first finds a layout with 11 buckets and the third one with 10. The others are no
records. -/
theorem sequential_hands_on_optionalPair :
    (run .standard (Problem.of Draft.optionalPair.grammar Compiled.optionalPair.table 2)
      { seed := 7, maxTrials := some 5 } Sink.keep.logged {} ([], [])).sink.2 =
        (Problem.of Draft.optionalPair.grammar Compiled.optionalPair.table 2).records
          (shuffledOrders .standard Draft.optionalPair.grammar 7) ⊤ 5 ∧
    (run .standard (Problem.of Draft.optionalPair.grammar Compiled.optionalPair.table 2)
      { seed := 7, maxTrials := some 5 } Sink.keep.logged {} ([], [])).sink.2.map (·.modulus) = [11, 10] := by
  have hshift : (Problem.of Draft.optionalPair.grammar Compiled.optionalPair.table 2).shift.toNat < 64 := by decide
  obtain ⟨-, hruns, -⟩ := sequential_hands_on_records hshift 5 Sink.keep {} []
  obtain ⟨hrecords, -⟩ := hruns .standard { seed := 7, maxTrials := some 5 } rfl
  have hnodup : ∀ k < 5, ∀ major ∈ [Major.nonterminal, .terminal],
      ((Problem.of Draft.optionalPair.grammar Compiled.optionalPair.table 2).hashes
        (shuffledOrders .standard Draft.optionalPair.grammar 7 k) major).Nodup := by decide +kernel
  refine ⟨(hrecords.completed ?_ (Sink.accepts_keep.feed _ _)).1, by decide +kernel⟩
  rintro k hk ⟨major, hdup⟩
  exact hdup (hnodup k hk major (by cases major <;> simp))

end Search

end Predictive
