import Predictive.Report
import Predictive.Search.Shuffle
import Predictive.Search.Trial

/-!
# Searches

A search makes trials until its budget is used up and hands every improvement to a sink at once, so that each layout
that the sink has received is of use on its own.

* `Search.runStream` makes trials one after the other, with orders from a stream.
* `Search.runRounds` makes them in rounds of several, where the orders of a trial depend on its number only.

Both are stated for any orders. With a shuffler, `Search.run` shuffles the orders on after each trial, and
`Search.runParallel` shuffles the orders of the grammar anew for each trial, with a seed made from the number of the
trial.
-/

namespace Predictive

/-- How to search. -/
structure SearchOptions where
  shift : UInt32 := UInt32.ofNat defaultShift
  seed : UInt64 := 0
  /-- The number of trials in a round; one means that trials follow each other. -/
  workers : Nat := 1
  /-- The number of trials to reach, or `none` to go on for good. -/
  maxTrials : Option Nat := none
  /-- The number of trials after which progress is told; zero means never. -/
  progressEvery : Nat := 10000
deriving DecidableEq, Inhabited

/-- The best layout so far and the number of trials made. -/
structure SearchState where
  best : Option Layout := none
  trials : Nat := 0
deriving DecidableEq, Inhabited

namespace SearchState

/-- Goes on from a layout. -/
def resume (l : Layout) : SearchState := ⟨some l, 0⟩

/-- Goes on from a layout that fits a grammar and its table. -/
def resumeChecked (g : Grammar) (table : Table) (l : Layout) : Except Error SearchState := do
  l.checkFingerprint g
  l.verify g table
  return resume l

/-- The modulus to beat. -/
def bestModulus (s : SearchState) : Option Nat := s.best.map (·.modulus.toNat)

/-- The trials that are left; a search without end has as many as can be counted. -/
def budget (s : SearchState) (maxTrials : Option Nat) : Nat :=
  match maxTrials with
  | some n => n - s.trials
  | none => UInt64.size - 1

end SearchState

/-- Receives improvements: the state after a layout was received, and whether it was accepted. -/
abbrev Sink (σ : Type) := σ → Layout → Except Error Unit × σ

/-- A sink that keeps every layout. -/
def Sink.keep : Sink (List Layout) := fun saved l => (.ok (), saved ++ [l])

/-- How a search ended: its notes, the state of the sink, and the final state or an error. -/
structure SearchEnd (σ : Type) where
  notes : List Note
  sink : σ
  outcome : Except Error SearchState

/-- Puts notes in front. -/
def SearchEnd.after {σ : Type} (notes : List Note) (e : SearchEnd σ) : SearchEnd σ :=
  { e with notes := notes ++ e.notes }

namespace Search

variable {σ τ : Type}

/-- The note on an improvement. -/
def improvedNote (p : Problem) (l : Layout) (trials : Nat) : Note :=
  .info ("search: modulus " ++ toString l.modulus.toNat ++ " [" ++ l.major.tag ++ "] after " ++
    toString trials ++ " trials (" ++ toString p.table.size ++ " keys)")

/-- The note on progress. -/
def progressNote (s : SearchState) : Note :=
  let best := match s.bestModulus with
    | some m => "Some(" ++ toString m ++ ")"
    | none => "None"
  .info ("search: " ++ toString s.trials ++ " trials, best modulus " ++ best)

/-- Hands an improvement to the sink. -/
def improve (p : Problem) (accept : Sink σ) (s : SearchState) (l : Layout) (sink : σ) : SearchEnd σ :=
  match accept sink l with
  | (.ok (), sink) => ⟨[improvedNote p l s.trials], sink, .ok { s with best := some l }⟩
  | (.error e, sink) => ⟨[improvedNote p l s.trials], sink, .error e⟩

/-- Hands an improvement to the sink, if there is one. -/
def improve? (p : Problem) (accept : Sink σ) (s : SearchState) (l : Option Layout) (sink : σ) : SearchEnd σ :=
  match l with
  | some l => improve p accept s l sink
  | none => ⟨[], sink, .ok s⟩

/-! ### Trials one after the other -/

/-- Progress after every `every` trials. -/
def stepProgress (every : Nat) (s : SearchState) : List Note :=
  if 0 < every ∧ s.trials % every = 0 then [progressNote s] else []

/-- Makes `n` more trials; `orders` reads the orders of the next trial off a stream and `next` moves it on. -/
def runStream (p : Problem) (every : Nat) (accept : Sink σ) (orders : τ → Orders) (next : τ → τ) :
    (n : Nat) → τ → Stamps → SearchState → σ → SearchEnd σ
  | 0, _, _, s, sink => ⟨[], sink, .ok s⟩
  | n + 1, stream, stamps, s, sink =>
    match p.trial (orders stream) s.bestModulus stamps with
    | .error e => ⟨[], sink, .error e⟩
    | .ok (hit, stamps) =>
      let s := { s with trials := s.trials + 1 }
      let step := improve? p accept s (hit.map (p.layout (orders stream))) sink
      let notes := hit.toList.map Hit.note ++ step.notes
      match step.outcome with
      | .error e => ⟨notes, step.sink, .error e⟩
      | .ok s =>
        (runStream p every accept orders next n (next stream) stamps s step.sink).after
          (notes ++ stepProgress every s)

/-- Shuffles the terminals, then the nonterminals. -/
def shuffleOrders (r : Shuffler) (o : Orders) (source : r.Source) : Orders × r.Source :=
  let (terminals, source) := r.shuffle o.terminals source
  let (nonterminals, source) := r.shuffle o.nonterminals source
  (⟨terminals, nonterminals⟩, source)

/-- Searches with one generator for all trials; the first trial has the orders of the grammar. -/
def run (r : Shuffler) (p : Problem) (options : SearchOptions) (accept : Sink σ) (s : SearchState) (sink : σ) :
    SearchEnd σ :=
  runStream p options.progressEvery accept Prod.fst (fun (o, source) => shuffleOrders r o source)
    (s.budget options.maxTrials) (p.grammar.orders, r.ofSeed options.seed) {} s sink

/-! ### Rounds of trials -/

/-- The outcomes of the trials numbered from `base` on, `n` of them, all with one bound. -/
def roundTrials (p : Problem) (orders : Nat → Orders) (bound : Option Nat) (base n : Nat) :
    List (Except Error (Option (Hit × Layout))) :=
  (List.range n).map fun k =>
    let o := orders (base + k)
    (p.trial o bound {}).map fun (hit, _) => hit.map fun h => (h, p.layout o h)

/-- The first layout with the least modulus. -/
def firstLeast (best : Option Layout) (l : Layout) : Option Layout :=
  match best with
  | none => some l
  | some b => if l.modulus < b.modulus then some l else some b

/-- The best layout of a round, or the first error. -/
def roundBest : List (Except Error (Option (Hit × Layout))) → Option Layout → Except Error (Option Layout)
  | [], best => .ok best
  | .error e :: _, _ => .error e
  | .ok none :: rest, best => roundBest rest best
  | .ok (some (_, l)) :: rest, best => roundBest rest (firstLeast best l)

/-- The notes of the trials of a round. -/
def roundNotes (results : List (Except Error (Option (Hit × Layout)))) : List Note :=
  results.filterMap fun
    | .ok (some (h, _)) => some h.note
    | _ => none

/-- Progress when a multiple of `every` was passed since `base` trials. -/
def roundProgress (every base : Nat) (s : SearchState) : List Note :=
  if 0 < every ∧ s.trials / every ≠ base / every then [progressNote s] else []

/-- Makes rounds while budget is left. All trials of a round are made before anything is handed on. A round makes a
trial at least, so `fuel` as large as the budget suffices. -/
def roundsFrom (p : Problem) (options : SearchOptions) (accept : Sink σ) (orders : Nat → Orders) :
    (fuel : Nat) → SearchState → σ → SearchEnd σ
  | 0, s, sink => ⟨[], sink, .ok s⟩
  | fuel + 1, s, sink =>
    let size := min (max options.workers 1) (s.budget options.maxTrials)
    if size = 0 then ⟨[], sink, .ok s⟩
    else
      let results := roundTrials p orders s.bestModulus s.trials size
      match roundBest results none with
      | .error e => ⟨roundNotes results, sink, .error e⟩
      | .ok best =>
        let base := s.trials
        let step := improve? p accept { s with trials := base + size } best sink
        let notes := roundNotes results ++ step.notes
        match step.outcome with
        | .error e => ⟨notes, step.sink, .error e⟩
        | .ok s =>
          (roundsFrom p options accept orders fuel s step.sink).after
            (notes ++ roundProgress options.progressEvery base s)

/-- Makes rounds until the budget is used up; `orders` gives the orders of a trial by its number. -/
def runRounds (p : Problem) (options : SearchOptions) (accept : Sink σ) (orders : Nat → Orders) (s : SearchState)
    (sink : σ) : SearchEnd σ :=
  roundsFrom p options accept orders (s.budget options.maxTrials) s sink

/-- The seed of a trial. -/
def trialSeed (seed : UInt64) (number : Nat) : UInt64 := seed ^^^ (UInt64.ofNat number * 0x9E3779B97F4A7C15)

/-- The orders of a trial by its number; the first has the orders of the grammar. -/
def trialOrders (r : Shuffler) (g : Grammar) (seed : UInt64) (number : Nat) : Orders :=
  if number = 0 then g.orders else (shuffleOrders r g.orders (r.ofSeed (trialSeed seed number))).1

/-- Searches in rounds. -/
def runParallel (r : Shuffler) (p : Problem) (options : SearchOptions) (accept : Sink σ) (s : SearchState) (sink : σ) :
    SearchEnd σ :=
  runRounds p options accept (trialOrders r p.grammar options.seed) s sink

/-- Searches in rounds if there is more than one worker. -/
def search (r : Shuffler) (p : Problem) (options : SearchOptions) (accept : Sink σ) (s : SearchState) (sink : σ) :
    SearchEnd σ :=
  if 1 < options.workers then runParallel r p options accept s sink else run r p options accept s sink

end Search

end Predictive
