/-!
# Keystream

Random words for the search come from the ChaCha cipher with twelve rounds. A block of sixteen words is computed from
a key of eight words and a counter; the keystream is the blocks in order. A generator is a key and a position in
its keystream.
-/

namespace Predictive

/-- Four words of a block. -/
structure Row where
  w₀ : UInt32
  w₁ : UInt32
  w₂ : UInt32
  w₃ : UInt32
deriving DecidableEq, Inhabited

namespace Row

def zipWith (f : UInt32 → UInt32 → UInt32) (a b : Row) : Row :=
  ⟨f a.w₀ b.w₀, f a.w₁ b.w₁, f a.w₂ b.w₂, f a.w₃ b.w₃⟩

/-- The words shifted to the left by one place, the first one to the end. -/
def rotate (a : Row) : Row := ⟨a.w₁, a.w₂, a.w₃, a.w₀⟩

/-- The bits of every word rotated to the left. -/
def rotateBits (n : UInt32) (a : Row) : Row :=
  let f := fun w : UInt32 => (w <<< n) ||| (w >>> (32 - n))
  ⟨f a.w₀, f a.w₁, f a.w₂, f a.w₃⟩

def toList (a : Row) : List UInt32 := [a.w₀, a.w₁, a.w₂, a.w₃]

end Row

/-- The state of the cipher as four rows. -/
structure Block where
  a : Row
  b : Row
  c : Row
  d : Row
deriving DecidableEq, Inhabited

namespace Block

/-- Mixes the four columns. -/
def mix (s : Block) : Block :=
  let add := Row.zipWith (· + ·)
  let xor := Row.zipWith (· ^^^ ·)
  let a := add s.a s.b
  let d := (xor s.d a).rotateBits 16
  let c := add s.c d
  let b := (xor s.b c).rotateBits 12
  let a := add a b
  let d := (xor d a).rotateBits 8
  let c := add c d
  let b := (xor b c).rotateBits 7
  ⟨a, b, c, d⟩

/-- Mixes the columns, then the diagonals. -/
def doubleRound (s : Block) : Block :=
  let s := s.mix
  let s := mix ⟨s.a, s.b.rotate, s.c.rotate.rotate, s.d.rotate.rotate.rotate⟩
  ⟨s.a, s.b.rotate.rotate.rotate, s.c.rotate.rotate, s.d.rotate⟩

def add (s t : Block) : Block :=
  let add := Row.zipWith (· + ·)
  ⟨add s.a t.a, add s.b t.b, add s.c t.c, add s.d t.d⟩

def toList (s : Block) : List UInt32 := s.a.toList ++ s.b.toList ++ s.c.toList ++ s.d.toList

end Block

/-- A key of the cipher. -/
structure StreamKey where
  low : Row
  high : Row
deriving DecidableEq, Inhabited

namespace StreamKey

/-- One step of the seed sequence. -/
def step (s : UInt64) : UInt64 := s * 6364136223846793005 + 11634580027462260723

/-- The key word of a member of the seed sequence. -/
def word (s : UInt64) : UInt32 :=
  let x := (((s >>> 18) ^^^ s) >>> 27).toUInt32
  let r := (s >>> 59).toUInt32
  (x >>> r) ||| (x <<< ((32 - r) % 32))

/-- The key of a seed. -/
def ofSeed (seed : UInt64) : StreamKey :=
  let s₁ := step seed
  let s₂ := step s₁
  let s₃ := step s₂
  let s₄ := step s₃
  let s₅ := step s₄
  let s₆ := step s₅
  let s₇ := step s₆
  let s₈ := step s₇
  ⟨⟨word s₁, word s₂, word s₃, word s₄⟩, ⟨word s₅, word s₆, word s₇, word s₈⟩⟩

/-- The block of a counter. -/
def block (key : StreamKey) (counter : UInt64) : Block :=
  let start : Block := {
    a := ⟨0x61707865, 0x3320646e, 0x79622d32, 0x6b206574⟩
    b := key.low
    c := key.high
    d := ⟨counter.toUInt32, (counter >>> 32).toUInt32, 0, 0⟩ }
  (Nat.repeat Block.doubleRound 6 start).add start

/-- The word of the keystream at a position. -/
def wordAt (key : StreamKey) (position : Nat) : UInt32 :=
  (key.block (UInt64.ofNat (position / 16))).toList.getD (position % 16) 0

end StreamKey

/-- A source of random words: a key and how many words were drawn. -/
structure Generator where
  key : StreamKey
  position : Nat := 0
deriving DecidableEq, Inhabited

namespace Generator

def ofSeed (seed : UInt64) : Generator := ⟨StreamKey.ofSeed seed, 0⟩

/-- Draws a word. -/
def next (g : Generator) : Nat × Generator :=
  ((g.key.wordAt g.position).toNat, { g with position := g.position + 1 })

/-- Draws a number below `bound`. A second word is drawn where the first leaves the rounding open. -/
def below (g : Generator) (bound : Nat) : Nat × Generator :=
  let (w, g) := g.next
  let high := w * bound / UInt32.size
  let low := w * bound % UInt32.size
  if UInt32.size - bound < low then
    let (v, g) := g.next
    (if UInt32.size ≤ low + v * bound / UInt32.size then high + 1 else high, g)
  else (high, g)

end Generator

end Predictive
