/-!
# Finite sets as increasing lists

Sets of terminals and nonterminals are kept as increasing lists, so that listing a set gives its members in order.
-/

namespace Predictive

/-- Puts a number in its place, unless it is there. -/
def insertSorted (x : Nat) : List Nat → List Nat
  | [] => [x]
  | y :: l => if x < y then x :: y :: l else if x = y then y :: l else y :: insertSorted x l

/-- A list without its first member, if that is `x`. -/
def pass (x : Nat) : List Nat → List Nat
  | [] => []
  | y :: l => if y = x then l else y :: l

/-- The members of either list. -/
def union : List Nat → List Nat → List Nat
  | [], b => b
  | x :: a, b => b.takeWhile (· < x) ++ x :: union a (pass x (b.dropWhile (· < x)))

/-- The members of a list, in increasing order. -/
def increasing (l : List Nat) : List Nat := l.foldr insertSorted []

@[simp] theorem mem_insertSorted {x y : Nat} {l : List Nat} : y ∈ insertSorted x l ↔ y = x ∨ y ∈ l := by
  induction l with
  | nil => simp [insertSorted]
  | cons a l ih =>
    unfold insertSorted
    split
    · simp
    · split
      · rename_i _ h; subst h; simp
      · simp only [List.mem_cons, ih]; exact or_left_comm

theorem mem_pass {x y : Nat} {l : List Nat} : y = x ∨ y ∈ pass x l ↔ y = x ∨ y ∈ l := by
  cases l with
  | nil => simp [pass]
  | cons a l => by_cases h : a = x <;> simp [pass, h]

@[simp] theorem mem_union {x : Nat} {a b : List Nat} : x ∈ union a b ↔ x ∈ a ∨ x ∈ b := by
  induction a generalizing b with
  | nil => simp [union]
  | cons y a ih =>
    have hb : x ∈ b ↔ x ∈ b.takeWhile (· < y) ∨ x ∈ b.dropWhile (· < y) := by
      rw [← List.mem_append, List.takeWhile_append_dropWhile]
    have hp := mem_pass (x := y) (y := x) (l := b.dropWhile (· < y))
    simp only [union, List.mem_append, List.mem_cons, ih, hb]
    grind

@[simp] theorem mem_increasing {x : Nat} {l : List Nat} : x ∈ increasing l ↔ x ∈ l := by
  induction l with
  | nil => simp [increasing]
  | cons y l ih =>
    have : increasing (y :: l) = insertSorted y (increasing l) := rfl
    simp [this, ih]

end Predictive
