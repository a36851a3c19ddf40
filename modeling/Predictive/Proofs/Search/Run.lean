import Mathlib.Logic.Function.Iterate
import Predictive.Proofs.Search.Usable
import Predictive.Proofs.Table.Recognition

/-!
# What a search hands on

A sink can be made to keep a list of all layouts that it receives, and nothing else changes by that
(`Search.forget_runStream`, `Search.forget_roundsFrom`). Each of these layouts comes from a trial of the search, so it is
usable on its own as soon as the orders of all trials have each symbol once. Shuffling keeps that
(`Orders.Permute.shuffleOrders`), so it holds of the searches with a shuffler, whichever it is.
-/

namespace Predictive

variable {σ τ : Type}

/-! ### Sinks that keep a list -/

/-- The sink that also lists what it receives, accepted or not. -/
def Sink.logged (accept : Sink σ) : Sink (σ × List Layout) := fun (sink, log) l =>
  ((accept sink l).1, ((accept sink l).2, log ++ [l]))

/-- Leaves out the list. -/
def SearchEnd.forget (e : SearchEnd (σ × List Layout)) : SearchEnd σ := ⟨e.notes, e.sink.1, e.outcome⟩

namespace Search

variable (p : Problem) (accept : Sink σ)

private theorem forget_improve? (s : SearchState) (l : Option Layout) (sink : σ) (log : List Layout) :
    (improve? p accept.logged s l (sink, log)).forget = improve? p accept s l sink := by
  cases l with
  | none => rfl
  | some l =>
    simp only [improve?, improve, Sink.logged]
    rcases accept sink l with ⟨_ | _, sink'⟩ <;> rfl

private theorem log_improve? (s : SearchState) (l : Option Layout) (sink : σ) (log : List Layout) :
    (improve? p accept.logged s l (sink, log)).sink.2 = log ++ l.toList := by
  cases l with
  | none => simp [improve?]
  | some l =>
    simp only [improve?, improve, Sink.logged]
    rcases accept sink l with ⟨_ | _, sink'⟩ <;> rfl

/-- A search with trials one after the other does the same with a list. -/
theorem forget_runStream (every : Nat) (orders : τ → Orders) (next : τ → τ) (n : Nat) (stream : τ) (stamps : Stamps)
    (s : SearchState) (sink : σ) (log : List Layout) :
    (runStream p every accept.logged orders next n stream stamps s (sink, log)).forget =
      runStream p every accept orders next n stream stamps s sink := by
  induction n generalizing stream stamps s sink log with
  | zero => rfl
  | succ n ih =>
    simp only [runStream]
    cases p.trial (orders stream) s.bestModulus stamps with
    | error e => rfl
    | ok found =>
      obtain ⟨hit, stamps'⟩ := found
      simp only
      have hforget := forget_improve? p accept { s with trials := s.trials + 1 }
        (hit.map (p.layout (orders stream))) sink log
      generalize improve? p accept.logged { s with trials := s.trials + 1 } (hit.map (p.layout (orders stream)))
        (sink, log) = step at hforget
      rw [← hforget]
      obtain ⟨notes, ⟨sink', log'⟩, outcome⟩ := step
      cases outcome with
      | error e => rfl
      | ok s' =>
        simp only [SearchEnd.forget]
        rw [← ih (next stream) stamps' s' sink' log']
        rfl

/-- A search in rounds does the same with a list. -/
theorem forget_roundsFrom (options : SearchOptions) (orders : Nat → Orders) (fuel : Nat) (s : SearchState) (sink : σ)
    (log : List Layout) :
    (roundsFrom p options accept.logged orders fuel s (sink, log)).forget =
      roundsFrom p options accept orders fuel s sink := by
  induction fuel generalizing s sink log with
  | zero => rfl
  | succ fuel ih =>
    simp only [roundsFrom]
    split
    · rfl
    cases roundBest (roundTrials p orders s.bestModulus s.trials (min (max options.workers 1) (s.budget
        options.maxTrials))) none with
    | error e => rfl
    | ok best =>
      simp only
      generalize { s with trials := s.trials + min (max options.workers 1) (s.budget options.maxTrials) } = s₁
      have hforget := forget_improve? p accept s₁ best sink log
      generalize improve? p accept.logged s₁ best (sink, log) = step at hforget
      rw [← hforget]
      obtain ⟨notes, ⟨sink', log'⟩, outcome⟩ := step
      cases outcome with
      | error e => rfl
      | ok s' =>
        simp only [SearchEnd.forget]
        rw [← ih s' sink' log']
        rfl

/-! ### Handed layouts -/

variable {p accept} {P : Layout → Prop}

private theorem log_after (notes : List Note) (e : SearchEnd (σ × List Layout)) :
    (e.after notes).sink.2 = e.sink.2 := rfl

private theorem forall_log_append {log : List Layout} (hlog : ∀ l ∈ log, P l) {l : Option Layout}
    (hl : ∀ x, l = some x → P x) : ∀ x ∈ log ++ l.toList, P x := by
  intro x hx
  rcases List.mem_append.mp hx with hx | hx
  · exact hlog x hx
  · exact hl x (by simpa using hx)

/-- What holds of the layouts of all trials holds of all that is handed on. -/
private theorem forall_log_runStream {every : Nat} {orders : τ → Orders} {next : τ → τ} {n : Nat} {stream : τ}
    {stamps : Stamps} {s : SearchState} {sink : σ} {log : List Layout}
    (hP : ∀ k bound stamps h stamps', p.trial (orders (next^[k] stream)) bound stamps = .ok (some h, stamps') →
      P (p.layout (orders (next^[k] stream)) h))
    (hlog : ∀ l ∈ log, P l) :
    ∀ l ∈ (runStream p every accept.logged orders next n stream stamps s (sink, log)).sink.2, P l := by
  induction n generalizing stream stamps s sink log with
  | zero => exact hlog
  | succ n ih =>
    simp only [runStream]
    cases htrial : p.trial (orders stream) s.bestModulus stamps with
    | error e => exact hlog
    | ok found =>
      obtain ⟨hit, stamps'⟩ := found
      simp only
      -- all that this step hands on is the layout of the trial at the head of the stream
      have hstep : ∀ l ∈ (improve? p accept.logged { s with trials := s.trials + 1 }
          (hit.map (p.layout (orders stream))) (sink, log)).sink.2, P l := by
        rw [log_improve?]
        refine forall_log_append hlog fun l hl => ?_
        obtain ⟨h, rfl, rfl⟩ := Option.map_eq_some_iff.mp hl
        exact hP 0 _ _ h _ htrial
      generalize improve? p accept.logged { s with trials := s.trials + 1 } (hit.map (p.layout (orders stream)))
        (sink, log) = step at hstep
      obtain ⟨notes, ⟨sink', log'⟩, outcome⟩ := step
      cases outcome with
      | error e => exact hstep
      | ok s' =>
        simp only [log_after]
        exact ih (fun k => hP (k + 1)) hstep

private theorem mem_of_roundBest {results : List (Except Error (Option (Hit × Layout)))} {best : Option Layout}
    {l : Layout} (h : roundBest results best = .ok (some l)) : best = some l ∨ ∃ hit, .ok (some (hit, l)) ∈ results := by
  induction results generalizing best with
  | nil => exact Or.inl (by simpa [roundBest] using h)
  | cons r results ih =>
    rcases r with e | _ | ⟨hit, x⟩
    · simp [roundBest] at h
    · rcases ih (by simpa [roundBest] using h) with hbest | ⟨hit, hmem⟩
      · exact Or.inl hbest
      · exact Or.inr ⟨hit, List.mem_cons_of_mem _ hmem⟩
    · rcases ih (by simpa [roundBest] using h) with hbest | ⟨hit', hmem⟩
      · unfold firstLeast at hbest
        cases best with
        | none => exact Or.inr ⟨hit, by simp [Option.some.inj hbest]⟩
        | some b =>
          simp only at hbest
          split at hbest
          · exact Or.inr ⟨hit, by simp [Option.some.inj hbest]⟩
          · exact Or.inl hbest
      · exact Or.inr ⟨hit', List.mem_cons_of_mem _ hmem⟩

/-- What holds of the layouts of all trials holds of all that is handed on after rounds. -/
private theorem forall_log_roundsFrom {options : SearchOptions} {orders : Nat → Orders} {fuel : Nat}
    {s : SearchState} {sink : σ} {log : List Layout}
    (hP : ∀ k bound stamps h stamps', p.trial (orders k) bound stamps = .ok (some h, stamps') →
      P (p.layout (orders k) h))
    (hlog : ∀ l ∈ log, P l) :
    ∀ l ∈ (roundsFrom p options accept.logged orders fuel s (sink, log)).sink.2, P l := by
  induction fuel generalizing s sink log with
  | zero => exact hlog
  | succ fuel ih =>
    simp only [roundsFrom]
    split
    · exact hlog
    generalize min (max options.workers 1) (s.budget options.maxTrials) = size
    cases hbest : roundBest (roundTrials p orders s.bestModulus s.trials size) none with
    | error e => exact hlog
    | ok best =>
      simp only
      -- the best layout of a round is that of one of its trials
      have hstep : ∀ l ∈ (improve? p accept.logged { s with trials := s.trials + size } best
          (sink, log)).sink.2, P l := by
        rw [log_improve?]
        refine forall_log_append hlog fun l hl => ?_
        rw [hl] at hbest
        obtain ⟨hit, hmem⟩ := (mem_of_roundBest hbest).resolve_left (by simp)
        simp only [roundTrials, List.mem_map, map_eq_ok] at hmem
        obtain ⟨k, -, ⟨found, stamps'⟩, htrial, hfound⟩ := hmem
        obtain ⟨h, rfl, hpair⟩ := Option.map_eq_some_iff.mp hfound
        obtain ⟨-, rfl⟩ := Prod.mk.inj hpair
        exact hP _ _ _ h _ htrial
      generalize improve? p accept.logged { s with trials := s.trials + size } best (sink, log) = step at hstep
      obtain ⟨notes, ⟨sink', log'⟩, outcome⟩ := step
      cases outcome with
      | error e => exact hstep
      | ok s' =>
        simp only [log_after]
        exact ih hstep

end Search

/-! ### Shuffled orders -/

namespace Orders

variable {g : Grammar}

theorem permute_orders (g : Grammar) : g.orders.Permute g := ⟨.refl _, .refl _⟩

theorem Permute.shuffleOrders {o : Orders} (h : o.Permute g) (r : Shuffler) (source : r.Source) :
    (Search.shuffleOrders r o source).1.Permute g :=
  ⟨(r.perm _ _).trans h.terminals, (r.perm _ _).trans h.nonterminals⟩

end Orders

namespace Search

/-- A layout that a search hands to its sink, with any orders of the trials that have each symbol once. -/
inductive Handed (p : Problem) : Layout → Prop where
  | stream {σ τ : Type} (every : Nat) (accept : Sink σ) (orders : τ → Orders) (next : τ → τ) (n : Nat) (stream : τ)
    (stamps : Stamps) (s : SearchState) (sink : σ) (horders : ∀ k, (orders (next^[k] stream)).Permute p.grammar)
    {l : Layout} (h : l ∈ (runStream p every accept.logged orders next n stream stamps s (sink, [])).sink.2) :
    Handed p l
  | rounds {σ : Type} (options : SearchOptions) (accept : Sink σ) (orders : Nat → Orders) (s : SearchState) (sink : σ)
    (horders : ∀ k, (orders k).Permute p.grammar)
    {l : Layout} (h : l ∈ (runRounds p options accept.logged orders s (sink, [])).sink.2) : Handed p l

section Shuffled

variable {r : Shuffler} {p : Problem} {options : SearchOptions} {accept : Sink σ} {s : SearchState} {sink : σ}
  {l : Layout}

theorem handed_of_run (h : l ∈ (run r p options accept.logged s (sink, [])).sink.2) : Handed p l := by
  refine .stream _ accept _ _ _ _ _ s sink (fun k => ?_) h
  induction k with
  | zero => exact Orders.permute_orders p.grammar
  | succ k ih =>
    rw [Function.iterate_succ_apply']
    exact ih.shuffleOrders r _

theorem handed_of_runParallel (h : l ∈ (runParallel r p options accept.logged s (sink, [])).sink.2) : Handed p l := by
  refine .rounds options accept _ s sink (fun k => ?_) h
  unfold trialOrders
  split
  · exact Orders.permute_orders p.grammar
  · exact (Orders.permute_orders p.grammar).shuffleOrders r _

end Shuffled

/-- A layout of a trial whose orders have each symbol once. -/
def OfTrial (p : Problem) (l : Layout) : Prop :=
  ∃ o bound stamps hit stamps', o.Permute p.grammar ∧ p.trial o bound stamps = .ok (some hit, stamps') ∧
    l = p.layout o hit

theorem Handed.ofTrial {p : Problem} {l : Layout} (h : Handed p l) : OfTrial p l := by
  cases h with
  | stream every accept orders next n stream stamps s sink horders h =>
    refine forall_log_runStream (P := OfTrial p) (fun k bound stamps hit stamps' htrial => ?_) (by simp) l h
    exact ⟨_, bound, stamps, hit, stamps', horders k, htrial, rfl⟩
  | rounds options accept orders s sink horders h =>
    refine forall_log_roundsFrom (P := OfTrial p) (fun k bound stamps hit stamps' htrial => ?_) (by simp) l h
    exact ⟨_, bound, stamps, hit, stamps', horders k, htrial, rfl⟩

/-- A layout that is handed on is usable. -/
theorem Handed.usable {g : Grammar} (hg : g.WellFormed) {table : Table} {shift : UInt32} (hs : shift.toNat < 32)
    {l : Layout} (h : Handed (Problem.of g table shift) l) : l.Usable g table := by
  obtain ⟨o, bound, stamps, hit, stamps', ho, htrial, rfl⟩ := h.ofTrial
  exact Problem.usable_layout hg hs ho (Problem.trial_some htrial)

/-- All layouts that searches for a compiled grammar hand on are usable on their own, whatever orders the trials have,
and either all of them can be packed or none. This covers the searches with a shuffler, which a list of what the sink
receives does not change. -/
theorem handed_layouts_usable {d : Draft} {g : Grammar} {c : Compiled} (hb : d.build = .ok g)
    (hc : Compiled.compile g = .ok c) {shift : UInt32} (hs : shift.toNat < 32) :
    (∀ l, Handed (Problem.of g c.table shift) l → l.Usable g c.table) ∧
    (∀ l l', Handed (Problem.of g c.table shift) l → Handed (Problem.of g c.table shift) l' →
      ((∃ t, PackedTable.pack g c.table l = .ok t) ↔ ∃ t, PackedTable.pack g c.table l' = .ok t)) ∧
    ∀ (σ : Type) (r : Shuffler) (options : SearchOptions) (accept : Sink σ) (s : SearchState) (sink : σ),
      (run r (Problem.of g c.table shift) options accept.logged s (sink, [])).forget =
        run r (Problem.of g c.table shift) options accept s sink ∧
      (∀ l ∈ (run r (Problem.of g c.table shift) options accept.logged s (sink, [])).sink.2,
        Handed (Problem.of g c.table shift) l) ∧
      (runParallel r (Problem.of g c.table shift) options accept.logged s (sink, [])).forget =
        runParallel r (Problem.of g c.table shift) options accept s sink ∧
      ∀ l ∈ (runParallel r (Problem.of g c.table shift) options accept.logged s (sink, [])).sink.2,
        Handed (Problem.of g c.table shift) l := by
  obtain ⟨hlegal, rfl⟩ := Draft.build_eq_ok.mp hb
  have hg := hlegal.wellFormed
  refine ⟨fun l hl => hl.usable hg hs, fun l l' hl hl' => ?_, fun σ r options accept s sink => ?_⟩
  · rw [(hl.usable hg hs).packed_iff, (hl'.usable hg hs).packed_iff]
  · exact ⟨forget_runStream _ _ _ _ _ _ _ _ _ _ _, fun l => handed_of_run, forget_roundsFrom _ _ _ _ _ _ _ _,
      fun l => handed_of_runParallel⟩

theorem exists_usable_optionalPair :
    ∃ l ∈ (run .standard (Problem.of Draft.optionalPair.grammar Compiled.optionalPair.table 2) { maxTrials := some 1 }
      Sink.keep.logged {} ([], [])).sink.2, l.Usable Draft.optionalPair.grammar Compiled.optionalPair.table := by
  have hne : (run .standard (Problem.of Draft.optionalPair.grammar Compiled.optionalPair.table 2) { maxTrials := some 1 }
      Sink.keep.logged {} ([], [])).sink.2 ≠ [] := by decide +kernel
  obtain ⟨l, hl⟩ := List.exists_mem_of_ne_nil _ hne
  have hshift : (2 : UInt32).toNat < 32 := by decide
  obtain ⟨husable, -, hruns⟩ :=
    handed_layouts_usable Draft.build_optionalPair Compiled.compile_optionalPair hshift
  exact ⟨l, hl, husable l ((hruns _ _ _ _ _ _).2.1 l hl)⟩

end Search

end Predictive
