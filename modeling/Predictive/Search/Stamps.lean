/-!
# Stamps

To test whether numbers are distinct modulo `m`, each test stamps the residues it meets with its own generation, in
one buffer for all tests. So nothing has to be cleared between tests. Only when the generations are used up, after
`2 ^ 32 - 1` tests, all stamps are reset.
-/

namespace Predictive

/-- Stamps of residues, and the generation of the last test. -/
structure Stamps where
  stamps : Array UInt32 := #[]
  generation : UInt32 := 0

namespace Stamps

/-- Makes room for the residues below `m`. -/
def grow (s : Stamps) (m : Nat) : Stamps :=
  let ⟨stamps, generation⟩ := s
  ⟨stamps ++ Array.replicate (m - stamps.size) 0, generation⟩

/-- Starts a new generation. -/
def advance (s : Stamps) : Stamps :=
  let ⟨stamps, generation⟩ := s
  if generation + 1 = 0 then ⟨Array.replicate stamps.size 0, 1⟩ else ⟨stamps, generation + 1⟩

/-- Stamps the residues of numbers until one is met that has the stamp of this generation. -/
def mark (m : Nat) : List Nat → Stamps → Bool × Stamps
  | [], s => (true, s)
  | raw :: rest, s =>
    let ⟨stamps, generation⟩ := s
    if stamps.getD (raw % m) 0 = generation then (false, ⟨stamps, generation⟩)
    else mark m rest ⟨stamps.setIfInBounds (raw % m) generation, generation⟩

/-- Whether numbers are distinct modulo `m`. -/
def distinctModulo (s : Stamps) (raws : List Nat) (m : Nat) : Bool × Stamps := mark m raws (s.grow m).advance

/-- The least modulus from `m` on, among `count` of them, under which numbers are distinct. -/
def leastModulus (raws : List Nat) : (count m : Nat) → Stamps → Option Nat × Stamps
  | 0, _, s => (none, s)
  | count + 1, m, s =>
    let (ok, s) := s.distinctModulo raws m
    if ok then (some m, s) else leastModulus raws count (m + 1) s

end Stamps

end Predictive
