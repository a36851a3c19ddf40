import Predictive.Search.Keystream

/-!
# Shuffling

A list is shuffled with random numbers that a generator draws. All that a search relies on is that the members stay the
same, so it takes any `Shuffler`. `Shuffler.standard` swaps each position with one up to it that is chosen at random. The
choices for several positions are taken from one random number, as many as fit into 32 bits.
-/

namespace Predictive

/-- Generators, each made from a seed, and a way to shuffle lists of numbers with them. -/
structure Shuffler where
  Source : Type
  ofSeed : UInt64 → Source
  shuffle : List Nat → Source → List Nat × Source
  perm : ∀ l source, (shuffle l source).1.Perm l

/-- Choices of a number below `1`, then one below `2`, and so on: `count` were made, and `chunk` holds the next `left`
of them. -/
structure Chooser where
  generator : Generator
  count : Nat := 0
  chunk : Nat := 0
  left : Nat := 1

namespace Chooser

/-- Multiplies `product` by the numbers from `factor` on while it stays below `2 ^ 32`; yields the product and the
first number that does not fit. The product doubles at every step, so `fuel` of 32 suffices. -/
def grow : (fuel product factor : Nat) → Nat × Nat
  | 0, product, factor => (product, factor)
  | fuel + 1, product, factor =>
    if product * factor < UInt32.size then grow fuel (product * factor) (factor + 1) else (product, factor)

/-- Draws a new chunk for the choices below `m`, `m + 1`, … if none is left. -/
def refill (c : Chooser) (m : Nat) : Chooser :=
  if c.left = 0 then
    let (product, factor) := grow 32 m (m + 1)
    let (chunk, generator) := c.generator.below product
    { c with generator, chunk, left := factor - m }
  else c

/-- The next choice: a number up to `count`. -/
def next (c : Chooser) : Nat × Chooser :=
  let m := c.count + 1
  let c := c.refill m
  if c.left = 1 then (c.chunk, { c with count := m, left := 0 })
  else (c.chunk % m, { c with count := m, chunk := c.chunk / m, left := c.left - 1 })

end Chooser

/-- Swaps the positions from `i` on, `n` of them, with chosen ones. -/
def shuffleFrom {α : Type} : (n i : Nat) → Array α → Chooser → Array α × Generator
  | 0, _, xs, c => (xs, c.generator)
  | n + 1, i, xs, c =>
    let (j, c) := c.next
    shuffleFrom n (i + 1) (xs.swapIfInBounds i j) c

/-- Shuffles a list. Nothing is drawn for a list with fewer than two members. -/
def shuffle {α : Type} (l : List α) (g : Generator) : List α × Generator :=
  if l.length ≤ 1 then (l, g)
  else
    let (xs, g) := shuffleFrom l.length 0 l.toArray { generator := g }
    (xs.toList, g)

private theorem perm_shuffleFrom {α : Type} (n i : Nat) (xs : Array α) (c : Chooser) :
    (shuffleFrom n i xs c).1.toList.Perm xs.toList := by
  induction n generalizing i xs c with
  | zero => exact .refl _
  | succ n ih =>
    have hswap : (xs.swapIfInBounds i c.next.1).toList.Perm xs.toList := by
      unfold Array.swapIfInBounds
      split
      · split
        · exact (Array.swap_perm _ _).toList
        · exact .refl _
      · exact .refl _
    exact (ih (i + 1) _ _).trans hswap

/-- A shuffled list has the same members. -/
theorem perm_shuffle {α : Type} (l : List α) (g : Generator) : (shuffle l g).1.Perm l := by
  unfold shuffle
  split
  · exact .refl l
  · simpa using perm_shuffleFrom l.length 0 l.toArray { generator := g }

/-- The shuffler that swaps positions with chosen ones. -/
def Shuffler.standard : Shuffler := ⟨Generator, Generator.ofSeed, Predictive.shuffle, perm_shuffle⟩

end Predictive
