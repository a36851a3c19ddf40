import Predictive.Analysis.Increasing
import Predictive.Grammar.Basic
import Predictive.Issue

/-!
# FIRST sets

FIRST of a sequence of symbols holds the terminals that its derivations can begin with, and says whether it
derives the empty string.

The FIRST sets of all nonterminals are found by one depth-first pass over the alternatives. A set that is done
is remembered. A nonterminal that is met again before its own set is done closes a left-recursive cycle: the cycle
is recorded and the nonterminal counts as empty there. A grammar with a recorded cycle has no FIRST sets.
-/

namespace Predictive

/-- Terminals that begin a derivation, in increasing order, and whether it can vanish. -/
structure FirstSet where
  terminals : List Terminal := []
  nullable : Bool := false
deriving DecidableEq, Inhabited

namespace FirstSet

/-- FIRST of a choice between two sequences. -/
def choice (a b : FirstSet) : FirstSet := ⟨union a.terminals b.terminals, a.nullable || b.nullable⟩

/-- FIRST of a sequence whose first symbol has the set `a` and can vanish, where `b` is FIRST of the rest. -/
def before (a b : FirstSet) : FirstSet := ⟨union a.terminals b.terminals, b.nullable⟩

/-- FIRST of a sequence, where `visit` gives the set of a nonterminal and carries a state along. Nothing after
the first symbol that cannot vanish is visited. -/
def sequence {σ : Type} (visit : Nonterminal → σ → FirstSet × σ) : List Symbol → σ → FirstSet × σ
  | [], s => ({ nullable := true }, s)
  | .terminal t :: _, s => ({ terminals := [t] }, s)
  | .nonterminal n :: rest, s =>
    let (f, s) := visit n s
    if f.nullable then
      let (r, s) := sequence visit rest s
      (f.before r, s)
    else (f, s)

/-- FIRST of a choice between sequences, which are visited in order. -/
def choices {σ : Type} (visit : Nonterminal → σ → FirstSet × σ) : List (List Symbol) → σ → FirstSet × σ
  | [], s => ({}, s)
  | rhs :: rest, s =>
    let (f, s) := sequence visit rhs s
    let (r, s) := choices visit rest s
    (f.choice r, s)

end FirstSet

/-- The state of the pass: the sets that are done, and the left-recursive cycles met so far. -/
structure FirstPass where
  done : List (Nonterminal × FirstSet) := []
  cycles : List (List Nonterminal) := []

namespace FirstPass

/-- Whether two cycles have the same members. -/
def sameMembers (a b : List Nonterminal) : Bool := a.all (· ∈ b) && b.all (· ∈ a)

/-- The cycle that `n` closes, from `n` on; `stack` holds the open nonterminals, the latest first. -/
def cycleAt (stack : List Nonterminal) (n : Nonterminal) : List Nonterminal :=
  n :: (stack.takeWhile (· ≠ n)).reverse

/-- Records a cycle unless one with the same members is known. -/
def record (s : FirstPass) (cycle : List Nonterminal) : FirstPass :=
  if s.cycles.any (sameMembers cycle) then s else { s with cycles := s.cycles ++ [cycle] }

/-- The set of `n` while those of `stack` are open. The open nonterminals are distinct, so the depth is bounded by
their number, and that many steps of `fuel` and one more suffice. -/
def visit (g : Grammar) : (fuel : Nat) → (stack : List Nonterminal) → Nonterminal → FirstPass → FirstSet × FirstPass
  | 0, _, _, s => ({}, s)
  | fuel + 1, stack, n, s =>
    match s.done.lookup n with
    | some f => (f, s)
    | none =>
      if n ∈ stack then ({}, s.record (cycleAt stack n))
      else
        let (f, s) := FirstSet.choices (visit g fuel (n :: stack)) ((g.productionsOf n).map (·.2.rhs)) s
        (f, { s with done := (n, f) :: s.done })

/-- The pass over all nonterminals, in order. -/
def run (g : Grammar) : FirstPass :=
  g.nonterminalIds.foldl (fun s n => (visit g (g.nonterminals.length + 1) [] n s).2) {}

end FirstPass

/-- The FIRST sets of all nonterminals, by number. -/
structure FirstSets where
  sets : List FirstSet
deriving DecidableEq, Inhabited

namespace FirstSets

/-- FIRST of a nonterminal. -/
def of (first : FirstSets) (n : Nonterminal) : FirstSet := first.sets.getD n {}

/-- FIRST of a sequence. -/
def ofSequence (first : FirstSets) (symbols : List Symbol) : FirstSet :=
  (FirstSet.sequence (fun n (_ : Unit) => (first.of n, ())) symbols ()).1

/-- The path of a cycle: the names of its members, and the first one again. -/
def cyclePath (g : Grammar) (cycle : List Nonterminal) : List String :=
  (cycle ++ cycle.take 1).map g.nonterminalName

/-- The FIRST sets of a grammar, or its left-recursive cycles. -/
def compute (g : Grammar) : Except (List Issue) FirstSets :=
  let pass := FirstPass.run g
  if pass.cycles = [] then
    .ok ⟨g.nonterminalIds.map fun n => (pass.done.lookup n).getD {}⟩
  else .error (pass.cycles.map fun c => .leftRecursion (cyclePath g c))

end FirstSets

end Predictive
