import Mathlib.Data.Finset.Card
import Mathlib.Data.Finset.Range
import Mathlib.Logic.Relation
import Predictive.Walk

/-!
# Walks visit what can be reached

A walk from `n` visits exactly the numbers that can be reached from `n` (`Walk.has_visited_run`). It goes deeper
only at numbers that were not visited, so a walk with more fuel than there are such numbers is not cut short:
all it visits anew has its successors visited in the end (`Walk.Grows`), and it ends without going any deeper, on
every graph and through every cycle of it (`Walk.visit?_eq_run`).

The same numbers are visited by a loop that keeps those it still has to go on from on a stack. A number is put there when
it is visited, so the loop takes each of them once (`Walk.drain?_eq_some`).
-/

namespace Predictive.Walk

variable {next : Nat → List Nat} {size : Nat}

/-- A walk that gives up where it would go deeper than `depth`. -/
def visit? (next : Nat → List Nat) : (depth : Nat) → Walk → Nat → Option Walk
  | 0, _, _ => none
  | depth + 1, w, n =>
    if w.visited.has n then some { w with repeats := n :: w.repeats }
    else (next n).foldlM (visit? next depth) { w with visited := w.visited.insert n }

/-- How many of the numbers below `size` are not in the set. -/
private def missing (size : Nat) (m : Marks) : Nat := ((Finset.range size).filter fun k => m.has k = false).card

private theorem missing_le {m m' : Marks} (h : ∀ k, m.has k = true → m'.has k = true) :
    missing size m' ≤ missing size m := by
  apply Finset.card_le_card
  intro k hk
  simp only [Finset.mem_filter] at hk ⊢
  refine ⟨hk.1, Bool.eq_false_iff.mpr fun hm => ?_⟩
  rw [h k hm] at hk
  simp at hk

private theorem missing_insert {m : Marks} {n : Nat} (hn : n < size) (hm : m.has n = false) :
    missing size (m.insert n) < missing size m := by
  apply Finset.card_lt_card
  rw [Finset.ssubset_iff_of_subset]
  · exact ⟨n, by simp [hn, hm], by simp⟩
  · intro k hk
    simp only [Finset.mem_filter, Marks.has_insert, Bool.or_eq_false_iff] at hk ⊢
    exact ⟨hk.1, hk.2.1⟩

private theorem missing_empty : missing size {} ≤ size := by
  have hcard := Finset.card_filter_le (Finset.range size) fun k => ({} : Marks).has k = false
  rwa [Finset.card_range] at hcard

/-- The second walk goes on from the first one: it visits no less, and the successors of all that it visits
anew. -/
structure Grows (next : Nat → List Nat) (w w' : Walk) : Prop where
  keeps : ∀ m, w.visited.has m = true → w'.visited.has m = true
  closed : ∀ m, w'.visited.has m = true → w.visited.has m = true ∨ ∀ k ∈ next m, w'.visited.has k = true

theorem Grows.refl (w : Walk) : Grows next w w := ⟨fun _ h => h, fun _ h => Or.inl h⟩

theorem Grows.trans {w₁ w₂ w₃ : Walk} (h : Grows next w₁ w₂) (h' : Grows next w₂ w₃) : Grows next w₁ w₃ := by
  refine ⟨fun m hm => h'.keeps m (h.keeps m hm), fun m hm => ?_⟩
  rcases h'.closed m hm with hm | hm
  · rcases h.closed m hm with hm | hm
    · exact Or.inl hm
    · exact Or.inr fun k hk => h'.keeps k (hm k hk)
  · exact Or.inr hm

private theorem grows_foldl {fuel : Nat}
    (hv : ∀ w n, n < size → missing size w.visited < fuel →
      Grows next w (visit next fuel w n) ∧ (visit next fuel w n).visited.has n = true)
    {l : List Nat} (hl : ∀ k ∈ l, k < size) {w : Walk} (hw : missing size w.visited < fuel) :
    Grows next w (l.foldl (visit next fuel) w) ∧
      ∀ k ∈ l, (l.foldl (visit next fuel) w).visited.has k = true := by
  induction l generalizing w with
  | nil => exact ⟨.refl w, by simp⟩
  | cons a l ih =>
    obtain ⟨hg, ha⟩ := hv w a (hl a (by simp)) hw
    have hw' : missing size (visit next fuel w a).visited < fuel := Nat.lt_of_le_of_lt (missing_le hg.keeps) hw
    obtain ⟨hg', hrest⟩ := ih (fun k hk => hl k (by simp [hk])) hw'
    exact ⟨hg.trans hg', List.forall_mem_cons.mpr ⟨hg'.keeps a ha, hrest⟩⟩

private theorem grows_visit (hnext : ∀ m, ∀ k ∈ next m, k < size) {fuel : Nat} {w : Walk} {n : Nat}
    (hn : n < size) (hw : missing size w.visited < fuel) :
    Grows next w (visit next fuel w n) ∧ (visit next fuel w n).visited.has n = true := by
  induction fuel generalizing w n with
  | zero => omega
  | succ fuel ih =>
    unfold visit
    split
    · rename_i h
      exact ⟨⟨fun _ h => h, fun _ h => Or.inl h⟩, h⟩
    · rename_i h
      -- one number less is missing below, so one step of fuel less suffices there
      have hmiss := missing_insert hn (by simpa using h)
      obtain ⟨hg, hall⟩ := grows_foldl (fun w n hn hw => ih hn hw) (hnext n)
        (w := { w with visited := w.visited.insert n }) (by simp only; omega)
      refine ⟨⟨fun m hm => hg.keeps m (by simp [hm]), fun m hm => ?_⟩, hg.keeps n (by simp)⟩
      rcases hg.closed m hm with hm | hm
      · rw [Marks.has_insert, Bool.or_eq_true, decide_eq_true_eq] at hm
        rcases hm with hm | rfl
        · exact Or.inl hm
        · exact Or.inr hall
      · exact Or.inr hm

/-! ### Walks come to an end -/

private theorem foldlM_visit? {depth fuel : Nat} (hnext : ∀ m, ∀ k ∈ next m, k < size)
    (hv : ∀ w n, n < size → missing size w.visited < depth → missing size w.visited < fuel →
      visit? next depth w n = some (visit next fuel w n))
    {l : List Nat} (hl : ∀ k ∈ l, k < size) {w : Walk} (hdepth : missing size w.visited < depth)
    (hfuel : missing size w.visited < fuel) :
    l.foldlM (visit? next depth) w = some (l.foldl (visit next fuel) w) := by
  induction l generalizing w with
  | nil => rfl
  | cons a l ih =>
    have ha : a < size := hl a List.mem_cons_self
    have hle : missing size (visit next fuel w a).visited ≤ missing size w.visited :=
      missing_le (grows_visit hnext ha hfuel).1.keeps
    rw [List.foldlM_cons, hv w a ha hdepth hfuel]
    exact ih (fun k hk => hl k (List.mem_cons_of_mem a hk)) (by omega) (by omega)

/-- Any two bounds above the number of nodes that are left give the same walk, and neither is reached. -/
private theorem visit?_eq_visit (hnext : ∀ m, ∀ k ∈ next m, k < size) {depth fuel : Nat} {w : Walk} {n : Nat}
    (hn : n < size) (hdepth : missing size w.visited < depth) (hfuel : missing size w.visited < fuel) :
    visit? next depth w n = some (visit next fuel w n) := by
  induction depth generalizing fuel w n with
  | zero => omega
  | succ depth ih =>
    cases fuel with
    | zero => omega
    | succ fuel =>
      unfold visit? visit
      by_cases h : w.visited.has n = true
      · rw [if_pos h, if_pos h]
      · have hmiss := missing_insert hn (by simpa using h)
        rw [if_neg h, if_neg h]
        refine foldlM_visit? hnext (fun w n hn hd hf => ih hn hd hf) (hnext n) ?_ ?_
        · simp only
          omega
        · simp only
          omega

/-- A walk comes to its end: it never goes deeper than there are nodes. -/
theorem visit?_eq_run (hnext : ∀ m, ∀ k ∈ next m, k < size) {n depth : Nat} (hn : n < size) (hdepth : size < depth) :
    visit? next depth {} n = some (run next size n) :=
  visit?_eq_visit hnext hn (Nat.lt_of_le_of_lt missing_empty hdepth) (Nat.lt_succ_of_le missing_empty)

/-! ### Walks visit what can be reached -/

private theorem reach_foldl {fuel m : Nat}
    (hv : ∀ w n, (visit next fuel w n).visited.has m = true →
      w.visited.has m = true ∨ Relation.ReflTransGen (fun a b => b ∈ next a) n m)
    {l : List Nat} {w : Walk} (h : (l.foldl (visit next fuel) w).visited.has m = true) :
    w.visited.has m = true ∨ ∃ k ∈ l, Relation.ReflTransGen (fun a b => b ∈ next a) k m := by
  induction l generalizing w with
  | nil => exact Or.inl h
  | cons a l ih =>
    rcases ih h with h | ⟨k, hk, hr⟩
    · rcases hv w a h with h | h
      · exact Or.inl h
      · exact Or.inr ⟨a, by simp, h⟩
    · exact Or.inr ⟨k, by simp [hk], hr⟩

private theorem reach_visit {fuel : Nat} {w : Walk} {n m : Nat} (h : (visit next fuel w n).visited.has m = true) :
    w.visited.has m = true ∨ Relation.ReflTransGen (fun a b => b ∈ next a) n m := by
  induction fuel generalizing w n with
  | zero => exact Or.inl h
  | succ fuel ih =>
    unfold visit at h
    split at h
    · exact Or.inl h
    · rcases reach_foldl (fun w n h => ih h) h with h | ⟨k, hk, hr⟩
      · rw [Marks.has_insert, Bool.or_eq_true, decide_eq_true_eq] at h
        rcases h with h | rfl
        · exact Or.inl h
        · exact Or.inr .refl
      · exact Or.inr (Relation.ReflTransGen.head hk hr)

/-- A walk visits exactly what can be reached from its start. -/
theorem has_visited_run (hnext : ∀ m, ∀ k ∈ next m, k < size) {n m : Nat} (hn : n < size) :
    (run next size n).visited.has m = true ↔ Relation.ReflTransGen (fun a b => b ∈ next a) n m := by
  constructor
  · intro h
    rcases reach_visit h with h | h
    · simp at h
    · exact h
  · intro h
    obtain ⟨hg, hself⟩ := grows_visit hnext hn (w := {}) (Nat.lt_succ_of_le missing_empty)
    induction h with
    | refl => exact hself
    | tail _ hstep ih =>
      rcases hg.closed _ ih with h | h
      · simp at h
      · exact h _ hstep

/-! ### Walks with a stack -/

/-- Visits a number and puts it on the stack, unless it was visited before. -/
def push (s : Marks × List Nat) (k : Nat) : Marks × List Nat :=
  if s.1.has k then s else (s.1.insert k, k :: s.2)

/-- Takes the numbers from the stack and pushes their successors, until none is left; gives up after `steps` numbers. -/
def drain? (next : Nat → List Nat) : (steps : Nat) → Marks × List Nat → Option Marks
  | _, (m, []) => some m
  | 0, (_, _ :: _) => none
  | steps + 1, (m, n :: stack) => drain? next steps ((next n).foldl push (m, stack))

/-- Each number that is pushed is visited, and is one less that can still be pushed. -/
private theorem foldl_push {l : List Nat} (hl : ∀ k ∈ l, k < size) (s : Marks × List Nat) :
    (∀ k, (l.foldl push s).1.has k = true ↔ s.1.has k = true ∨ k ∈ l) ∧
    (∀ k, k ∈ (l.foldl push s).2 ↔ k ∈ s.2 ∨ k ∈ l ∧ s.1.has k = false) ∧
    missing size (l.foldl push s).1 + (l.foldl push s).2.length ≤ missing size s.1 + s.2.length := by
  induction l generalizing s with
  | nil => simp
  | cons a l ih =>
    obtain ⟨hhas, hmem, hle⟩ := ih (fun k hk => hl k (List.mem_cons_of_mem a hk)) (push s a)
    rw [List.foldl_cons]
    cases ha : s.1.has a with
    | true =>
      have hpush : push s a = s := if_pos ha
      rw [hpush] at hhas hmem hle ⊢
      refine ⟨fun k => ?_, fun k => ?_, hle⟩
      · rw [hhas, List.mem_cons]
        by_cases hk : k = a
        · simp [hk, ha]
        · simp [hk]
      · rw [hmem, List.mem_cons]
        by_cases hk : k = a
        · simp [hk, ha]
        · simp [hk]
    | false =>
      have hpush : push s a = (s.1.insert a, a :: s.2) := if_neg (by simp [ha])
      have hmiss := missing_insert (hl a List.mem_cons_self) ha
      rw [hpush] at hhas hmem hle ⊢
      refine ⟨fun k => ?_, fun k => ?_, ?_⟩
      · rw [hhas, Marks.has_insert, List.mem_cons]
        simp [or_assoc]
      · rw [hmem, Marks.has_insert, List.mem_cons, List.mem_cons]
        by_cases hk : k = a
        · simp [hk, ha]
        · simp [hk]
      · simp only [List.length_cons] at hle
        omega

/-- What the loop keeps: only what can be reached is visited, and all successors of a visited number are visited, unless
it is still on the stack. -/
private structure Drains (next : Nat → List Nat) (n : Nat) (s : Marks × List Nat) : Prop where
  start : s.1.has n = true
  reached : ∀ k, s.1.has k = true → Relation.ReflTransGen (fun a b => b ∈ next a) n k
  marked : ∀ k ∈ s.2, s.1.has k = true
  closed : ∀ k, s.1.has k = true → k ∈ s.2 ∨ ∀ j ∈ next k, s.1.has j = true

private theorem Drains.step (hnext : ∀ m, ∀ k ∈ next m, k < size) {n k : Nat} {m : Marks} {stack : List Nat}
    (h : Drains next n (m, k :: stack)) : Drains next n ((next k).foldl push (m, stack)) := by
  obtain ⟨hhas, hmem, -⟩ := foldl_push (hnext k) (m, stack)
  have hk : Relation.ReflTransGen (fun a b => b ∈ next a) n k := h.reached k (h.marked k List.mem_cons_self)
  refine ⟨(hhas n).mpr (Or.inl h.start), fun j hj => ?_, fun j hj => ?_, fun j hj => ?_⟩
  · rcases (hhas j).mp hj with hj | hj
    · exact h.reached j hj
    · exact hk.tail hj
  · rcases (hmem j).mp hj with hj | ⟨hj, -⟩
    · exact (hhas j).mpr (Or.inl (h.marked j (List.mem_cons_of_mem k hj)))
    · exact (hhas j).mpr (Or.inr hj)
  · cases hm : m.has j with
    | false =>
      -- it was pushed just now
      rcases (hhas j).mp hj with hj | hj
      · exact absurd hj (by simp [hm])
      · exact Or.inl ((hmem j).mpr (Or.inr ⟨hj, hm⟩))
    | true =>
      rcases h.closed j hm with hstack | hall
      · rcases List.mem_cons.mp hstack with rfl | hstack
        · exact Or.inr fun i hi => (hhas i).mpr (Or.inr hi)
        · exact Or.inl ((hmem j).mpr (Or.inl hstack))
      · exact Or.inr fun i hi => (hhas i).mpr (Or.inl (hall i hi))

private theorem Drains.drain? (hnext : ∀ m, ∀ k ∈ next m, k < size) {n steps : Nat} {s : Marks × List Nat}
    (h : Drains next n s) (hsteps : missing size s.1 + s.2.length ≤ steps) :
    ∃ m, drain? next steps s = some m ∧ Drains next n (m, []) := by
  induction steps generalizing s with
  | zero =>
    obtain ⟨m, stack⟩ := s
    cases stack with
    | nil => exact ⟨m, rfl, h⟩
    | cons k stack => simp at hsteps
  | succ steps ih =>
    obtain ⟨m, stack⟩ := s
    cases stack with
    | nil => exact ⟨m, rfl, h⟩
    | cons k stack =>
      obtain ⟨-, -, hle⟩ := foldl_push (hnext k) (m, stack)
      refine ih (h.step hnext) ?_
      simp only [List.length_cons] at hle hsteps
      omega

/-- The loop comes to its end after no more numbers than there are, and has then visited what a walk visits. -/
theorem drain?_eq_some (hnext : ∀ m, ∀ k ∈ next m, k < size) {n steps : Nat} (hn : n < size) (hsteps : size ≤ steps) :
    ∃ m, drain? next steps (({} : Marks).insert n, [n]) = some m ∧ ∀ k, m.has k = (run next size n).visited.has k := by
  have hstart : Drains next n (({} : Marks).insert n, [n]) := by
    refine ⟨by simp, fun k hk => ?_, fun k hk => ?_, fun k hk => ?_⟩
    · obtain rfl : k = n := by simpa using hk
      exact .refl
    · simpa using hk
    · exact Or.inl (by simpa using hk)
  have hfew : missing size (({} : Marks).insert n) + [n].length ≤ steps := by
    have hmiss := missing_insert hn (Marks.has_empty n)
    have hsize : missing size {} ≤ size := missing_empty
    rw [List.length_singleton]
    omega
  obtain ⟨m, hdrain, hm⟩ := hstart.drain? hnext hfew
  refine ⟨m, hdrain, fun k => Bool.eq_iff_iff.mpr ?_⟩
  rw [has_visited_run hnext hn]
  constructor
  · exact hm.reached k
  · intro hk
    induction hk with
    | refl => exact hm.start
    | tail _ hstep ih =>
      rcases hm.closed _ ih with hnil | hall
      · simp at hnil
      · exact hall _ hstep

end Predictive.Walk
