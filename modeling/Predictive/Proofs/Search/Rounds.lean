import Predictive.Proofs.Search.Sequential

/-!
# Trials in rounds

The trials of a round all have the bound that the round began with, and only the first of the best is handed on. That is
the last record of the round (`Search.roundBest_roundTrials`). So rounds of any size lead to the state that trials one
after the other lead to, and hand on some of the records, with the same last one (`Search.roundsFrom_eq`). Where a round
ends does not matter, so neither does where a search ends and another goes on from its state (`Search.runChain_eq`).
-/

namespace Predictive

variable {σ : Type}

namespace Search

variable {p : Problem} {accept : Sink σ} {orders : Nat → Orders} {s : SearchState}

/-! ### One round -/

private theorem roundBest_append (xs ys : List (Except Error (Option (Hit × Layout)))) (best : Option Layout) :
    roundBest (xs ++ ys) best = roundBest xs best >>= roundBest ys := by
  induction xs generalizing best with
  | nil => rfl
  | cons x xs ih =>
    rcases x with e | _ | ⟨hit, l⟩
    · rfl
    · exact ih best
    · exact ih (firstLeast best l)

private theorem roundTrials_succ (bound : Option Nat) (base n : Nat) :
    roundTrials p orders bound base (n + 1) = roundTrials p orders bound base n ++
      [(p.trial (orders (base + n)) bound {}).map fun (hit, _) =>
        hit.map fun h => (h, p.layout (orders (base + n)) h)] := by
  simp [roundTrials, List.range_succ]

/-- A trial that does not fail is compared with the best so far if it is below the bound of the round. -/
private theorem roundBest_singleton (hs : p.shift.toNat < 64) {o : Orders} (hno : ¬ p.Collides o)
    (best : Option Layout) :
    roundBest [(p.trial o s.bestModulus {}).map fun (hit, _) => hit.map fun h => (h, p.layout o h)] best =
      .ok (if p.least o < s.toBeat then firstLeast best (p.record o) else best) := by
  obtain ⟨hit, stamps, htrial, -, hlayout⟩ :=
    Problem.trial_of_not_collides hs hno Stamps.valid_empty s.bestModulus
  rw [htrial, SearchState.toBeat]
  by_cases hlt : p.least o < asBound s.bestModulus
  · rw [if_pos hlt] at hlayout
    obtain ⟨h, rfl, hrecord⟩ := Option.map_eq_some_iff.mp hlayout
    rw [if_pos hlt, ← hrecord]
    rfl
  · rw [if_neg hlt, Option.map_eq_none_iff] at hlayout
    rw [if_neg hlt, hlayout]
    rfl

/-- The trial that a round makes after others takes the lead exactly if it is a record. -/
private theorem roundBest_trial (hs : p.shift.toNat < 64) {o : Nat → Orders} {n : Nat} (hno : ¬ p.Collides (o n)) :
    roundBest [(p.trial (o n) s.bestModulus {}).map fun (hit, _) => hit.map fun h => (h, p.layout (o n) h)]
      (p.records o s.toBeat n).getLast? = .ok (p.records o s.toBeat (n + 1)).getLast? := by
  rw [roundBest_singleton hs hno, Problem.getLast?_records_succ]
  cases hlast : (p.records o s.toBeat n).getLast? with
  | none =>
    have hsame : (p.after o s n).toBeat = s.toBeat :=
      Problem.toBeat_congr (by rw [Problem.after, hlast, Option.none_or])
    rw [hsame, Option.or_none]
    rfl
  | some b =>
    have hbeat : (p.after o s n).toBeat = b.modulus.toNat :=
      Problem.toBeat_of_some (by rw [Problem.after, hlast, Option.some_or])
    by_cases hlt : p.least (o n) < s.toBeat
    · have hmodulus : (p.record (o n)).modulus < b.modulus ↔ p.least (o n) < (p.after o s n).toBeat := by
        rw [hbeat, ← Problem.modulus_record hlt, Nat.cast_lt, UInt32.lt_iff_toNat_lt]
      rw [if_pos hlt, firstLeast]
      by_cases hnew : p.least (o n) < (p.after o s n).toBeat
      · rw [if_pos (hmodulus.mpr hnew), if_pos hnew, Option.some_or]
      · rw [if_neg (fun h => hnew (hmodulus.mp h)), if_neg hnew, Option.none_or]
    · have hold : ¬ p.least (o n) < (p.after o s n).toBeat := by
        intro h
        exact hlt (h.trans_le (Problem.toBeat_after_le n))
      rw [if_neg hlt, if_neg hold, Option.none_or]

/-- The best layout of a round is the last of its records. -/
theorem roundBest_roundTrials (hs : p.shift.toNat < 64) {base n : Nat}
    (hno : ∀ j < n, ¬ p.Collides (orders (base + j))) :
    roundBest (roundTrials p orders s.bestModulus base n) none =
      .ok (p.records (fun j => orders (base + j)) s.toBeat n).getLast? := by
  induction n with
  | zero => rfl
  | succ n ih =>
    rw [roundTrials_succ, roundBest_append, ih fun j hj => hno j (by omega)]
    exact roundBest_trial hs (o := fun j => orders (base + j)) (hno n (by omega))

/-- A round ends with the error of its first trial that fails. -/
private theorem roundBest_of_fails (hs : p.shift.toNat < 64) {base n k : Nat} {e : Error} (hk : k < n)
    (hno : ∀ j < k, ¬ p.Collides (orders (base + j)))
    (he : ∀ bound stamps, p.trial (orders (base + k)) bound stamps = .error e) :
    roundBest (roundTrials p orders s.bestModulus base n) none = .error e := by
  induction n with
  | zero => omega
  | succ n ih =>
    rw [roundTrials_succ, roundBest_append]
    by_cases hlast : k < n
    · rw [ih hlast]
      rfl
    · obtain rfl : k = n := by omega
      rw [roundBest_roundTrials hs hno, he]
      rfl

/-! ### Rounds -/

/-- The orders of the trials that are left. -/
def ordersLeft (orders : Nat → Orders) (s : SearchState) : Nat → Orders := fun j => orders (s.trials + j)

theorem ordersLeft_new (orders : Nat → Orders) : ordersLeft orders {} = orders :=
  funext fun j => congrArg orders (Nat.zero_add j)

/-- Some of the layouts that are due, with the same last one. -/
structure Thinned (due ls : List Layout) : Prop where
  sublist : ls.Sublist due
  getLast? : ls.getLast? = due.getLast?

theorem Thinned.append {due due' ls ls' : List Layout} (h : Thinned due ls) (h' : Thinned due' ls') :
    Thinned (due ++ due') (ls ++ ls') where
  sublist := h.sublist.append h'.sublist
  getLast? := by rw [List.getLast?_append, List.getLast?_append, h'.getLast?, h.getLast?]

/-- The last one is enough. -/
private theorem thinned_last (due : List Layout) : Thinned due due.getLast?.toList where
  sublist := by
    rcases List.eq_nil_or_concat due with rfl | ⟨front, l, rfl⟩
    · exact List.Sublist.refl _
    · simp
  getLast? := by cases due.getLast? <;> rfl

private theorem toList_getLast?_records_one (bound : ℕ∞) (o : Nat → Orders) :
    (p.records o bound 1).getLast?.toList = p.records o bound 1 := by
  rw [Problem.records_one]
  split <;> rfl

private theorem ordersLeft_after (m : Nat) :
    ordersLeft orders (p.after (ordersLeft orders s) s m) = fun j => ordersLeft orders s (j + m) := by
  funext j
  simp only [ordersLeft, Problem.trials_after]
  rw [Nat.add_assoc, Nat.add_comm m j]

/-- A round without a trial that fails hands on its last record, and the rounds after it go on from there. -/
theorem roundsFrom_succ (hs : p.shift.toNat < 64) {options : SearchOptions} {size fuel : Nat}
    (hsize : min (max options.workers 1) (s.budget options.maxTrials) = size) (hpos : size ≠ 0)
    (hno : ∀ j < size, ¬ p.Collides (ordersLeft orders s j)) {ls : List Layout} {r : Except Error SearchState}
    (hrest : ∀ sink, EndsWith (roundsFrom p options accept orders fuel (p.after (ordersLeft orders s) s size) sink)
      (accept.feed ls sink) r) (sink : σ) :
    EndsWith (roundsFrom p options accept orders (fuel + 1) s sink)
      (accept.feed ((p.records (ordersLeft orders s) s.toBeat size).getLast?.toList ++ ls) sink) r := by
  have hround : roundBest (roundTrials p orders s.bestModulus s.trials size) none =
      .ok (p.records (ordersLeft orders s) s.toBeat size).getLast? := roundBest_roundTrials hs hno
  have hstate : p.after (ordersLeft orders s) s size = { s with
      trials := s.trials + size, best := (p.records (ordersLeft orders s) s.toBeat size).getLast?.or s.best } := rfl
  have hstep := improve?_endsWith p accept { s with trials := s.trials + size }
    (p.records (ordersLeft orders s) s.toBeat size).getLast? sink
  rw [hstate] at hrest
  rw [Sink.feed_append, roundsFrom, hsize]
  simp only
  rw [if_neg hpos, hround]
  simp only
  generalize improve? p accept { s with trials := s.trials + size }
    (p.records (ordersLeft orders s) s.toBeat size).getLast? sink = step at hstep
  obtain ⟨notes, sink₁, outcome⟩ := step
  obtain ⟨rfl, rfl⟩ := hstep
  rcases accept.feed (p.records (ordersLeft orders s) s.toBeat size).getLast?.toList sink with ⟨_ | _, sink'⟩
  · exact ⟨rfl, rfl⟩
  · exact EndsWith.after (hrest sink') _

/-- A round ends the search at the first of its trials that fails. -/
private theorem roundsFrom_succ_of_fails (hs : p.shift.toNat < 64) {options : SearchOptions} {size fuel k : Nat}
    (hsize : min (max options.workers 1) (s.budget options.maxTrials) = size) (hk : k < size)
    (hno : ∀ j < k, ¬ p.Collides (ordersLeft orders s j)) {e : Error}
    (he : ∀ bound stamps, p.trial (ordersLeft orders s k) bound stamps = .error e) (sink : σ) :
    EndsWith (roundsFrom p options accept orders (fuel + 1) s sink) (.ok (), sink) (.error e) := by
  have hround : roundBest (roundTrials p orders s.bestModulus s.trials size) none = .error e :=
    roundBest_of_fails hs hk hno he
  have hpos : size ≠ 0 := by omega
  rw [roundsFrom, hsize]
  simp only
  rw [if_neg hpos, hround]
  exact ⟨rfl, rfl⟩

private theorem roundsFrom_of_budget_eq_zero {options : SearchOptions} (h : s.budget options.maxTrials = 0)
    (fuel : Nat) (sink : σ) : EndsWith (roundsFrom p options accept orders fuel s sink) (.ok (), sink) (.ok s) := by
  cases fuel with
  | zero => exact ⟨rfl, rfl⟩
  | succ fuel =>
    have hsize : min (max options.workers 1) (s.budget options.maxTrials) = 0 := by omega
    rw [roundsFrom, hsize]
    exact ⟨rfl, rfl⟩

/-- Rounds hand on some of the records of the first `m` trials, with the same last one, and all of those of the first `k`
if each round has one trial. They end with `r`, if nothing is refused. -/
def RoundsHandOn (p : Problem) (accept : Sink σ) (orders : Nat → Orders) (options : SearchOptions) (fuel : Nat)
    (s : SearchState) (m k : Nat) (r : Except Error SearchState) : Prop :=
  ∃ ls, Thinned (p.records (ordersLeft orders s) s.toBeat m) ls ∧
    (options.workers ≤ 1 → ls = p.records (ordersLeft orders s) s.toBeat k) ∧
    ∀ sink, EndsWith (roundsFrom p options accept orders fuel s sink) (accept.feed ls sink) r

/-- A round without a trial that fails comes before what the rounds after it hand on. -/
private theorem RoundsHandOn.succ (hs : p.shift.toNat < 64) {options : SearchOptions} {size fuel m k : Nat}
    {r : Except Error SearchState} (hsize : min (max options.workers 1) (s.budget options.maxTrials) = size)
    (hpos : size ≠ 0) (hno : ∀ j < size, ¬ p.Collides (ordersLeft orders s j))
    (h : RoundsHandOn p accept orders options fuel (p.after (ordersLeft orders s) s size) m k r) :
    RoundsHandOn p accept orders options (fuel + 1) s (size + m) (size + k) r := by
  obtain ⟨ls, hthin, hone, hends⟩ := h
  rw [ordersLeft_after] at hthin hone
  refine ⟨_, ?_, ?_, roundsFrom_succ hs hsize hpos hno hends⟩
  · rw [Problem.records_add]
    exact (thinned_last _).append hthin
  · intro hworkers
    obtain rfl : size = 1 := by omega
    rw [Problem.records_add, hone hworkers, toList_getLast?_records_one]

/-- Rounds of trials that do not fail hand on records of all of them. -/
private theorem roundsHandOn_of_completes (hs : p.shift.toNat < 64) (accept : Sink σ) {options : SearchOptions}
    {maxTrials : Nat} (hmax : options.maxTrials = some maxTrials) {fuel : Nat} (hfuel : maxTrials - s.trials ≤ fuel)
    (hno : ∀ j < maxTrials - s.trials, ¬ p.Collides (ordersLeft orders s j)) :
    RoundsHandOn p accept orders options fuel s (maxTrials - s.trials) (maxTrials - s.trials)
      (.ok (p.after (ordersLeft orders s) s (maxTrials - s.trials))) := by
  have hbudget : ∀ s : SearchState, s.budget options.maxTrials = maxTrials - s.trials := by
    intro s
    simp only [SearchState.budget, hmax]
  have hdone : ∀ (s : SearchState) fuel, maxTrials - s.trials = 0 →
      RoundsHandOn p accept orders options fuel s 0 0 (.ok s) := by
    intro s fuel hzero
    exact ⟨[], ⟨List.Sublist.refl _, rfl⟩, fun _ => rfl,
      roundsFrom_of_budget_eq_zero (by rw [hbudget, hzero]) fuel⟩
  induction fuel generalizing s with
  | zero =>
    have hzero : maxTrials - s.trials = 0 := by omega
    rw [hzero, Problem.after_zero]
    exact hdone s 0 hzero
  | succ fuel ih =>
    obtain ⟨size, hsize⟩ : ∃ size, min (max options.workers 1) (maxTrials - s.trials) = size := ⟨_, rfl⟩
    by_cases hpos : size = 0
    · have hzero : maxTrials - s.trials = 0 := by omega
      rw [hzero, Problem.after_zero]
      exact hdone s _ hzero
    have hleft : maxTrials - s.trials =
        size + (maxTrials - (p.after (ordersLeft orders s) s size).trials) := by
      rw [Problem.trials_after]
      omega
    have hno' : ∀ j < maxTrials - (p.after (ordersLeft orders s) s size).trials,
        ¬ p.Collides (ordersLeft orders (p.after (ordersLeft orders s) s size) j) := by
      intro j hj
      rw [ordersLeft_after]
      exact hno (j + size) (by omega)
    have hrest := ih (by omega) hno'
    rw [ordersLeft_after, ← Problem.after_add, ← hleft] at hrest
    have hround := hrest.succ hs (by rw [hbudget, hsize]) hpos fun j hj => hno j (by omega)
    rwa [← hleft] at hround

/-- The number of trials in the full rounds among the first `k` trials. -/
def inFullRounds (workers k : Nat) : Nat := k / max workers 1 * max workers 1

private theorem inFullRounds_of_lt {workers k : Nat} (h : k < max workers 1) : inFullRounds workers k = 0 := by
  rw [inFullRounds, Nat.div_eq_of_lt h, Nat.zero_mul]

private theorem inFullRounds_add (workers k : Nat) :
    inFullRounds workers (max workers 1 + k) = max workers 1 + inFullRounds workers k := by
  rw [inFullRounds, Nat.add_div_left _ (by omega), Nat.succ_mul, Nat.add_comm, inFullRounds]

private theorem lt_budget_after {maxTrials : Option Nat} {o : Nat → Orders} {m k : Nat}
    (h : m + k < s.budget maxTrials) : k < (p.after o s m).budget maxTrials := by
  cases maxTrials with
  | none =>
    simp only [SearchState.budget] at h ⊢
    omega
  | some n =>
    simp only [SearchState.budget, Problem.trials_after] at h ⊢
    omega

/-- A trial that fails takes all of its round with it: only records of the full rounds before it are handed on. -/
theorem roundsHandOn_of_fails (hs : p.shift.toNat < 64) (accept : Sink σ) {options : SearchOptions} {fuel k : Nat}
    (hfuel : k < fuel) (hk : k < s.budget options.maxTrials) (hno : ∀ j < k, ¬ p.Collides (ordersLeft orders s j))
    {e : Error} (he : ∀ bound stamps, p.trial (ordersLeft orders s k) bound stamps = .error e) :
    RoundsHandOn p accept orders options fuel s (inFullRounds options.workers k) k (.error e) := by
  induction fuel generalizing s k with
  | zero => omega
  | succ fuel ih =>
    by_cases hround : k < max options.workers 1
    · -- the trial is in the first round
      refine ⟨[], ?_, ?_, roundsFrom_succ_of_fails hs rfl (by omega) hno he⟩
      · rw [inFullRounds_of_lt hround]
        exact ⟨List.Sublist.refl _, rfl⟩
      · intro hworkers
        obtain rfl : k = 0 := by omega
        rfl
    · obtain ⟨k, rfl⟩ := Nat.exists_eq_add_of_le (Nat.le_of_not_lt hround)
      have hno' : ∀ j < k,
          ¬ p.Collides (ordersLeft orders (p.after (ordersLeft orders s) s (max options.workers 1)) j) := by
        intro j hj
        rw [ordersLeft_after]
        exact hno (j + max options.workers 1) (by omega)
      have he' : ∀ bound stamps,
          p.trial (ordersLeft orders (p.after (ordersLeft orders s) s (max options.workers 1)) k) bound stamps =
            .error e := by
        rw [ordersLeft_after]
        simpa only [Nat.add_comm k] using he
      have hrest := ih (by omega) (lt_budget_after hk) hno' he'
      rw [inFullRounds_add]
      exact hrest.succ hs (by omega) (by omega) fun j hj => hno j (by omega)

/-- Rounds hand on some of the records of the rounds before one that fails, and all of them if each round has one
trial. They end as trials one after the other do. -/
theorem roundsFrom_eq (hs : p.shift.toNat < 64) (accept : Sink σ) {options : SearchOptions} {maxTrials : Nat}
    (hmax : options.maxTrials = some maxTrials) {fuel k : Nat} (hfuel : maxTrials - s.trials ≤ fuel)
    {r : Except Error SearchState} (h : Ending p (ordersLeft orders s) s (maxTrials - s.trials) k r) :
    ∃ m ls, Thinned (p.records (ordersLeft orders s) s.toBeat m) ls ∧ ((∃ s', r = .ok s') → m = k) ∧
      (options.workers ≤ 1 → ls = p.records (ordersLeft orders s) s.toBeat k) ∧
      ∀ sink, EndsWith (roundsFrom p options accept orders fuel s sink) (accept.feed ls sink) r := by
  cases h with
  | completes hno =>
    obtain ⟨ls, hthin, hone, hends⟩ := roundsHandOn_of_completes hs accept hmax hfuel hno
    exact ⟨_, ls, hthin, fun _ => rfl, hone, hends⟩
  | fails hk hno he =>
    have hbudget : k < s.budget options.maxTrials := by rwa [hmax, SearchState.budget]
    obtain ⟨ls, hthin, hone, hends⟩ := roundsHandOn_of_fails hs accept (hk.trans_le hfuel) hbudget hno he
    exact ⟨_, ls, hthin, by simp, hone, hends⟩

/-! ### Chains of searches -/

/-- A search in rounds with a budget, and a sink that accepts everything. -/
structure Call (σ : Type) where
  options : SearchOptions
  maxTrials : Nat
  maxTrials_eq : options.maxTrials = some maxTrials
  sink : Sink σ
  accepts : sink.Accepts

theorem Call.budget_eq (c : Call σ) (s : SearchState) :
    s.budget c.options.maxTrials = c.maxTrials - s.trials := by
  simp only [SearchState.budget, c.maxTrials_eq]

/-- Searches one after the other, each going on from the state and the list of the one before. -/
def runChain (search : SearchOptions → Sink (σ × List Layout) → SearchState → σ × List Layout →
    SearchEnd (σ × List Layout)) : List (Call σ) → SearchState → σ × List Layout → SearchEnd (σ × List Layout)
  | [], s, sink => ⟨[], sink, .ok s⟩
  | c :: calls, s, sink =>
    let e := search c.options c.sink.logged s sink
    match e.outcome with
    | .error err => ⟨e.notes, e.sink, .error err⟩
    | .ok s => (runChain search calls s e.sink).after e.notes

/-- The budgets of calls do not decrease, and end with `maxTrials`. -/
structure Reaches (calls : List (Call σ)) (maxTrials : Nat) : Prop where
  nondecreasing : calls.Pairwise fun c c' => c.maxTrials ≤ c'.maxTrials
  last : calls.getLast?.map (·.maxTrials) = some maxTrials

variable {maxTrials : Nat}

/-- A call that no trial ends early hands on some of the records up to its budget, and all if it has one worker. -/
private theorem Call.runRounds_eq (hs : p.shift.toNat < 64) (c : Call σ)
    (hno : ∀ j < c.maxTrials - s.trials, ¬ p.Collides (ordersLeft orders s j)) :
    ∃ ls, Thinned (p.records (ordersLeft orders s) s.toBeat (c.maxTrials - s.trials)) ls ∧
      (c.options.workers ≤ 1 → ls = p.records (ordersLeft orders s) s.toBeat (c.maxTrials - s.trials)) ∧
      ∀ sink log, (runRounds p c.options c.sink.logged orders s (sink, log)).sink.2 = log ++ ls ∧
        (runRounds p c.options c.sink.logged orders s (sink, log)).outcome =
          .ok (p.after (ordersLeft orders s) s (c.maxTrials - s.trials)) := by
  obtain ⟨m, ls, hthin, hm, hone, hends⟩ :=
    roundsFrom_eq hs c.sink.logged c.maxTrials_eq (Nat.le_refl _) (Ending.completes hno)
  obtain rfl := hm ⟨_, rfl⟩
  refine ⟨ls, hthin, hone, ?_⟩
  intro sink log
  obtain ⟨hsink, houtcome⟩ := hends (sink, log)
  rw [Sink.feed_logged (c.accepts.feed ls sink)] at hsink houtcome
  rw [runRounds, c.budget_eq, hsink, houtcome]
  exact ⟨rfl, rfl⟩

/-- A chain of calls up to a budget that one of them has ends as one call does. -/
theorem runChain_eq (hs : p.shift.toNat < 64) {calls : List (Call σ)} (hle : ∀ c ∈ calls, c.maxTrials ≤ maxTrials)
    (hreach : maxTrials ≤ s.trials ∨ ∃ c ∈ calls, c.maxTrials = maxTrials)
    (hno : ∀ j < maxTrials - s.trials, ¬ p.Collides (ordersLeft orders s j)) (sink : σ) (log : List Layout) :
    ∃ ls, Thinned (p.records (ordersLeft orders s) s.toBeat (maxTrials - s.trials)) ls ∧
      (runChain (fun options accept => runRounds p options accept orders) calls s (sink, log)).sink.2 = log ++ ls ∧
      (runChain (fun options accept => runRounds p options accept orders) calls s (sink, log)).outcome =
        .ok (p.after (ordersLeft orders s) s (maxTrials - s.trials)) := by
  induction calls generalizing s sink log with
  | nil =>
    have hzero : maxTrials - s.trials = 0 := by simpa [Nat.sub_eq_zero_iff_le] using hreach
    rw [hzero]
    exact ⟨[], ⟨List.Sublist.refl _, rfl⟩, by simp [runChain], by simp [runChain]⟩
  | cons c calls ih =>
    have hc := hle c (by simp)
    obtain ⟨ls, hthin, -, hcall⟩ := c.runRounds_eq hs fun j hj => hno j (by omega)
    obtain ⟨hlog, houtcome⟩ := hcall sink log
    obtain ⟨m, hm⟩ : ∃ m, c.maxTrials - s.trials = m := ⟨_, rfl⟩
    rw [hm] at hthin houtcome
    -- the calls after the first go on from the state that it reached
    have htrials : (p.after (ordersLeft orders s) s m).trials = s.trials + m := rfl
    have hreach' : maxTrials ≤ (p.after (ordersLeft orders s) s m).trials ∨ ∃ c ∈ calls, c.maxTrials = maxTrials := by
      rcases hreach with hdone | ⟨c', hmem, hc'⟩
      · exact Or.inl (by omega)
      · rcases List.mem_cons.mp hmem with rfl | hmem
        · exact Or.inl (by omega)
        · exact Or.inr ⟨c', hmem, hc'⟩
    have hno' : ∀ j < maxTrials - (p.after (ordersLeft orders s) s m).trials,
        ¬ p.Collides (ordersLeft orders (p.after (ordersLeft orders s) s m) j) := by
      intro j hj
      rw [ordersLeft_after]
      exact hno (j + m) (by omega)
    have hsplit : maxTrials - s.trials = m + (maxTrials - (p.after (ordersLeft orders s) s m).trials) := by
      rw [htrials, Nat.sub_add_eq, Nat.add_sub_of_le (hm ▸ Nat.sub_le_sub_right hc s.trials)]
    rw [runChain]
    generalize runRounds p c.options c.sink.logged orders s (sink, log) = e at hlog houtcome
    obtain ⟨notes, ⟨sink', log'⟩, outcome⟩ := e
    obtain ⟨rfl, rfl⟩ := And.intro hlog houtcome
    obtain ⟨ls', hthin', hlog', houtcome'⟩ :=
      ih (fun c' hc' => hle c' (List.mem_cons_of_mem c hc')) hreach' hno' sink' (log ++ ls)
    rw [ordersLeft_after] at hthin' houtcome'
    rw [hsplit, Problem.records_add, Problem.after_add]
    exact ⟨ls ++ ls', hthin.append hthin', by rw [← List.append_assoc]; exact hlog', houtcome'⟩

theorem Reaches.exists_mem {calls : List (Call σ)} (h : Reaches calls maxTrials) :
    (∃ c ∈ calls, c.maxTrials = maxTrials) ∧ ∀ c ∈ calls, c.maxTrials ≤ maxTrials := by
  obtain ⟨last, hlast, hmax⟩ := Option.map_eq_some_iff.mp h.last
  obtain ⟨front, rfl⟩ := List.getLast?_eq_some_iff.mp hlast
  refine ⟨⟨last, by simp, hmax⟩, ?_⟩
  intro c hc
  rcases List.mem_append.mp hc with hc | hc
  · rw [← hmax]
    exact (List.pairwise_append.mp h.nondecreasing).2.2 c hc last (by simp)
  · obtain rfl : c = last := by simpa using hc
    exact hmax.le

/-- A call ends with the error of the first trial that fails. -/
private theorem Call.runRounds_of_fails (hs : p.shift.toNat < 64) (c : Call σ) {k : Nat}
    (hk : k < c.maxTrials - s.trials) (hno : ∀ j < k, ¬ p.Collides (ordersLeft orders s j)) {e : Error}
    (he : ∀ bound stamps, p.trial (ordersLeft orders s k) bound stamps = .error e) (sink : σ) :
    (runRounds p c.options c.sink orders s sink).outcome = .error e := by
  obtain ⟨m, ls, -, -, -, hends⟩ :=
    roundsFrom_eq hs c.sink c.maxTrials_eq (Nat.le_refl _) (Ending.fails hk hno he)
  rw [runRounds, c.budget_eq, (hends sink).2, c.accepts.feed]
  rfl

/-- Calls with one seed have the same orders of the trials. -/
private theorem runChain_runParallel {r : Shuffler} {seed : UInt64} {calls : List (Call σ)}
    (h : ∀ c ∈ calls, c.options.seed = seed) (s : SearchState) (sink : σ × List Layout) :
    runChain (runParallel r p) calls s sink =
      runChain (fun options accept => runRounds p options accept (trialOrders r p.grammar seed)) calls s sink := by
  induction calls generalizing s sink with
  | nil => rw [runChain, runChain]
  | cons c calls ih =>
    have hcall : runParallel r p c.options c.sink.logged s sink =
        runRounds p c.options c.sink.logged (trialOrders r p.grammar seed) s sink := by
      rw [runParallel, h c List.mem_cons_self]
    simp only [runChain, hcall]
    split
    · rfl
    · rw [ih fun c' hc' => h c' (List.mem_cons_of_mem c hc')]

/-- A search in rounds depends neither on the number of workers nor on how its budget is split. If no trial fails, every
chain of searches up to the same budget ends with the same state, whose best layout is that of the first trial with the
least modulus, and hands on some of the layouts that one search with one worker hands on, with the same last one. If a
trial fails, a search ends with the error of the first that does. -/
theorem rounds_independent_of_workers (hs : p.shift.toNat < 64) (orders : Nat → Orders) (s : SearchState)
    (maxTrials : Nat) :
    ((∀ k, s.trials ≤ k → k < maxTrials → ¬ p.Collides (orders k)) →
      ∃ final : SearchState, final.trials = max s.trials maxTrials ∧
        ((∃ k, Problem.Wins (fun j => p.least (ordersLeft orders s j)) s.toBeat (maxTrials - s.trials) k ∧
            final.best = some (p.record (ordersLeft orders s k))) ∨
          (∀ k < maxTrials - s.trials, s.toBeat ≤ p.least (ordersLeft orders s k)) ∧ final.best = s.best) ∧
        ∃ due : List Layout,
          (∀ (σ : Type) (c : Call σ) (sink : σ), c.maxTrials = maxTrials → c.options.workers ≤ 1 →
            (runRounds p c.options c.sink.logged orders s (sink, [])).outcome = .ok final ∧
            (runRounds p c.options c.sink.logged orders s (sink, [])).sink.2 = due) ∧
          ∀ (σ : Type) (calls : List (Call σ)) (sink : σ), Reaches calls maxTrials →
            (runChain (fun options accept => runRounds p options accept orders) calls s (sink, [])).outcome =
              .ok final ∧
            Thinned due
              (runChain (fun options accept => runRounds p options accept orders) calls s (sink, [])).sink.2) ∧
    (∀ k, s.trials ≤ k → k < maxTrials → p.Collides (orders k) →
      (∀ j, s.trials ≤ j → j < k → ¬ p.Collides (orders j)) →
      ∃ first second,
        (∀ bound stamps, p.trial (orders k) bound stamps = .error (.rawCollision first second p.shift.toNat)) ∧
        ∀ (σ : Type) (c : Call σ) (sink : σ), c.maxTrials = maxTrials →
          (runRounds p c.options c.sink orders s sink).outcome =
            .error (.rawCollision first second p.shift.toNat)) ∧
    ∀ (σ : Type) (r : Shuffler) (seed : UInt64) (calls : List (Call σ)) (sink : σ),
      (∀ c ∈ calls, c.options.seed = seed) →
      runChain (runParallel r p) calls s (sink, []) =
        runChain (fun options accept => runRounds p options accept (trialOrders r p.grammar seed)) calls s
          (sink, []) := by
  refine ⟨?_, ?_, fun σ r seed calls sink hseed => runChain_runParallel hseed s (sink, [])⟩
  · intro hno
    have hleft : ∀ j < maxTrials - s.trials, ¬ p.Collides (ordersLeft orders s j) := by
      intro j hj
      exact hno (s.trials + j) (by omega) (by omega)
    refine ⟨p.after (ordersLeft orders s) s (maxTrials - s.trials), ?_, Problem.best_after _,
      p.records (ordersLeft orders s) s.toBeat (maxTrials - s.trials), ?_, ?_⟩
    · rw [Problem.trials_after]
      omega
    · rintro σ c sink rfl hworkers
      obtain ⟨ls, -, hone, hcall⟩ := c.runRounds_eq hs hleft
      obtain ⟨hlog, houtcome⟩ := hcall sink []
      exact ⟨houtcome, by rw [hlog, List.nil_append, hone hworkers]⟩
    · intro σ calls sink hreaches
      obtain ⟨hmem, hle⟩ := hreaches.exists_mem
      obtain ⟨ls, hthin, hlog, houtcome⟩ := runChain_eq hs hle (Or.inr hmem) hleft sink []
      rw [List.nil_append] at hlog
      exact ⟨houtcome, hlog ▸ hthin⟩
  · intro k hle hlt hcol hno
    obtain ⟨first, second, herror⟩ := Problem.trial_of_collides hs hcol
    obtain ⟨j, rfl⟩ := Nat.exists_eq_add_of_le hle
    refine ⟨first, second, herror, ?_⟩
    rintro σ c sink rfl
    exact c.runRounds_of_fails hs (by omega) (fun i hi => hno (s.trials + i) (by omega) (by omega)) herror sink

theorem rounds_independent_optionalPair :
    ∃ final due, due ≠ [] ∧
      (runRounds (Problem.of Draft.optionalPair.grammar Compiled.optionalPair.table 2) { maxTrials := some 2 }
        Sink.keep.logged (trialOrders .standard Draft.optionalPair.grammar 0) {} ([], [])).outcome = .ok final ∧
      (runRounds (Problem.of Draft.optionalPair.grammar Compiled.optionalPair.table 2) { maxTrials := some 2 }
        Sink.keep.logged (trialOrders .standard Draft.optionalPair.grammar 0) {} ([], [])).sink.2 = due ∧
      (runChain (runParallel .standard (Problem.of Draft.optionalPair.grammar Compiled.optionalPair.table 2))
        [⟨{ maxTrials := some 1, workers := 3 }, 1, rfl, Sink.keep, Sink.accepts_keep⟩,
          ⟨{ maxTrials := some 2, workers := 2 }, 2, rfl, Sink.keep, Sink.accepts_keep⟩] {} ([], [])).outcome =
        .ok final := by
  have hshift : (Problem.of Draft.optionalPair.grammar Compiled.optionalPair.table 2).shift.toNat < 64 := by decide
  obtain ⟨hclean, -, hparallel⟩ :=
    rounds_independent_of_workers hshift (trialOrders .standard Draft.optionalPair.grammar 0) {} 2
  have hnodup : ∀ k < 2, ∀ major ∈ [Major.nonterminal, .terminal],
      ((Problem.of Draft.optionalPair.grammar Compiled.optionalPair.table 2).hashes
        (trialOrders .standard Draft.optionalPair.grammar 0 k) major).Nodup := by decide +kernel
  have hno : ∀ k, 0 ≤ k → k < 2 → ¬ (Problem.of Draft.optionalPair.grammar Compiled.optionalPair.table 2).Collides
      (trialOrders .standard Draft.optionalPair.grammar 0 k) := by
    rintro k - hk ⟨major, hdup⟩
    exact hdup (hnodup k hk major (by cases major <;> simp))
  obtain ⟨final, -, -, due, hsingle, hchains⟩ := hclean hno
  obtain ⟨houtcome, hdue⟩ :=
    hsingle _ ⟨{ maxTrials := some 2 }, 2, rfl, Sink.keep, Sink.accepts_keep⟩ [] rfl (by decide)
  simp only at houtcome hdue
  refine ⟨final, due, ?_, houtcome, hdue, ?_⟩
  · rw [← hdue]
    decide +kernel
  · rw [hparallel _ _ 0 _ _ (by decide)]
    exact (hchains _ _ _ ⟨by simp, rfl⟩).1

end Search

end Predictive
