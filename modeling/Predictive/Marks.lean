/-!
# Sets of small numbers

A set of numbers is kept as the bits of one number, so that a member is found without a search.
-/

namespace Predictive

/-- The numbers whose bits are set. -/
structure Marks where
  bits : Nat := 0
deriving DecidableEq, Inhabited

namespace Marks

/-- Whether a number is in the set. -/
def has (m : Marks) (n : Nat) : Bool := m.bits.testBit n

/-- The set with one more number. -/
def insert (m : Marks) (n : Nat) : Marks := ⟨m.bits ||| 1 <<< n⟩

@[simp] theorem has_empty (n : Nat) : ({} : Marks).has n = false := Nat.zero_testBit n

@[simp] theorem has_insert (m : Marks) (n k : Nat) : (m.insert n).has k = (m.has k || decide (k = n)) := by
  simp only [has, insert, Nat.testBit_or, Nat.one_shiftLeft, Nat.testBit_two_pow, eq_comm]

end Marks

end Predictive
