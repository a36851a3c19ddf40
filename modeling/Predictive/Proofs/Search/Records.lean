import Predictive.Proofs.Search.Least
import Predictive.Search.Run

/-!
# Records

In a row of trials those are due whose least modulus is below the one to beat and below those of all trials before: the
records (`IsRecord`). `Problem.records` lists their layouts, and `Problem.after` is the state that they lead to. Both
can be cut at any trial: what comes after it is due for the state that was reached there (`Problem.records_add`,
`Problem.after_add`). This is all that a search has to follow, however it groups its trials.
-/

namespace Predictive

/-! ### Records of a sequence -/

/-- A number below a bound and below all numbers before it. -/
def IsRecord (f : Nat → ℕ∞) (bound : ℕ∞) (k : Nat) : Prop := f k < bound ∧ ∀ j < k, f k < f j

instance (f : Nat → ℕ∞) (bound : ℕ∞) (k : Nat) : Decidable (IsRecord f bound k) :=
  inferInstanceAs (Decidable (_ ∧ _))

/-- The least of a bound and the first `n` numbers. -/
noncomputable def runningMin (f : Nat → ℕ∞) (bound : ℕ∞) : Nat → ℕ∞
  | 0 => bound
  | n + 1 => min (runningMin f bound n) (f n)

section Sequence

variable {f : Nat → ℕ∞} {bound : ℕ∞}

private theorem lt_runningMin_iff {x : ℕ∞} {n : Nat} : x < runningMin f bound n ↔ x < bound ∧ ∀ j < n, x < f j := by
  induction n with
  | zero => simp [runningMin]
  | succ n ih =>
    rw [runningMin, lt_min_iff, ih]
    constructor
    · rintro ⟨⟨hbound, hall⟩, hn⟩
      refine ⟨hbound, ?_⟩
      intro j hj
      rcases Nat.lt_succ_iff_lt_or_eq.mp hj with hj | rfl
      · exact hall j hj
      · exact hn
    · rintro ⟨hbound, hall⟩
      exact ⟨⟨hbound, fun j hj => hall j (by omega)⟩, hall n (by omega)⟩

private theorem isRecord_iff {k : Nat} : IsRecord f bound k ↔ f k < runningMin f bound k := lt_runningMin_iff.symm

private theorem runningMin_add (m n : Nat) :
    runningMin f bound (n + m) = runningMin (fun k => f (k + m)) (runningMin f bound m) n := by
  induction n with
  | zero => simp [runningMin]
  | succ n ih => rw [Nat.succ_add, runningMin, runningMin, ih]

private theorem isRecord_add (m k : Nat) :
    IsRecord f bound (k + m) ↔ IsRecord (fun k => f (k + m)) (runningMin f bound m) k := by
  rw [isRecord_iff, isRecord_iff, runningMin_add]

end Sequence

/-- The modulus to beat; infinite before there is a layout. -/
def SearchState.toBeat (s : SearchState) : ℕ∞ := asBound s.bestModulus

namespace Problem

section Definitions

variable (p : Problem) (o : Nat → Orders)

/-- The layouts of the records among the first `n` trials. -/
noncomputable def records (bound : ℕ∞) (n : Nat) : List Layout :=
  ((List.range n).filter (IsRecord (fun k => p.least (o k)) bound)).map fun k => p.record (o k)

/-- The state after `n` more trials. -/
noncomputable def after (s : SearchState) (n : Nat) : SearchState :=
  ⟨(p.records o s.toBeat n).getLast?.or s.best, s.trials + n⟩

end Definitions

variable {p : Problem} {o : Nat → Orders} {s : SearchState}

@[simp] theorem records_zero (bound : ℕ∞) : p.records o bound 0 = [] := rfl

@[simp] theorem after_zero : p.after o s 0 = s := by simp [after]

@[simp] theorem trials_after (n : Nat) : (p.after o s n).trials = s.trials + n := rfl

theorem records_one (bound : ℕ∞) :
    p.records o bound 1 = (if p.least (o 0) < bound then some (p.record (o 0)) else none).toList := by
  by_cases h : p.least (o 0) < bound
  · have hrecord : IsRecord (fun k => p.least (o k)) bound 0 := ⟨h, by simp⟩
    simp [records, h, hrecord, List.range_succ]
  · have hrecord : ¬ IsRecord (fun k => p.least (o k)) bound 0 := fun hr => h hr.1
    simp [records, h, hrecord, List.range_succ]

private theorem records_add_runningMin (bound : ℕ∞) (m n : Nat) : p.records o bound (m + n) =
    p.records o bound m ++
      p.records (fun k => o (k + m)) (runningMin (fun k => p.least (o k)) bound m) n := by
  rw [records, List.range_add, List.filter_append, List.map_append, List.filter_map, List.map_map]
  congr 1
  have hfilter : ((fun k => decide (IsRecord (fun k => p.least (o k)) bound k)) ∘ (m + ·)) =
      fun k => decide (IsRecord (fun k => p.least (o (k + m))) (runningMin (fun k => p.least (o k)) bound m) k) := by
    funext k
    rw [Function.comp_apply, Nat.add_comm m k, decide_eq_decide]
    exact isRecord_add m k
  have hmap : (fun k => p.record (o k)) ∘ (m + ·) = fun k => p.record (o (k + m)) := by
    funext k
    rw [Function.comp_apply, Nat.add_comm m k]
  rw [hfilter, hmap, records]

theorem toBeat_of_some {l : Layout} {s : SearchState} (h : s.best = some l) :
    s.toBeat = (l.modulus.toNat : ℕ∞) := by
  simp [SearchState.toBeat, SearchState.bestModulus, asBound, h]

theorem toBeat_congr {s s' : SearchState} (h : s.best = s'.best) : s.toBeat = s'.toBeat := by
  rw [SearchState.toBeat, SearchState.toBeat, SearchState.bestModulus, SearchState.bestModulus, h]

private theorem getLast?_records_succ_runningMin (bound : ℕ∞) (n : Nat) : (p.records o bound (n + 1)).getLast? =
    (if p.least (o n) < runningMin (fun k => p.least (o k)) bound n then some (p.record (o n)) else none).or
      (p.records o bound n).getLast? := by
  have hlast : ∀ l : Option Layout, l.toList.getLast? = l := by
    intro l
    cases l <;> rfl
  rw [records_add_runningMin, records_one, List.getLast?_append, hlast, Nat.zero_add]

private theorem best_succ (n : Nat) : (p.after o s (n + 1)).best =
    (if p.least (o n) < runningMin (fun k => p.least (o k)) s.toBeat n then some (p.record (o n)) else none).or
      (p.after o s n).best := by
  rw [after, getLast?_records_succ_runningMin, Option.or_assoc]
  rfl

/-- After some trials the least of their moduli is to be beaten. -/
private theorem toBeat_after (n : Nat) :
    (p.after o s n).toBeat = runningMin (fun k => p.least (o k)) s.toBeat n := by
  induction n with
  | zero => simp [runningMin]
  | succ n ih =>
    have hbest := best_succ (p := p) (o := o) (s := s) n
    rw [runningMin]
    by_cases h : p.least (o n) < runningMin (fun k => p.least (o k)) s.toBeat n
    · rw [if_pos h, Option.some_or] at hbest
      rw [toBeat_of_some hbest, modulus_record h, min_eq_right h.le]
    · rw [if_neg h, Option.none_or] at hbest
      rw [toBeat_congr hbest, ih, min_eq_left (not_lt.mp h)]

theorem toBeat_after_le (n : Nat) : (p.after o s n).toBeat ≤ s.toBeat := by
  rw [toBeat_after]
  induction n with
  | zero => exact le_refl _
  | succ n ih => exact (min_le_left _ _).trans ih

/-- The last record is the last trial, if it beats those before. -/
theorem getLast?_records_succ (n : Nat) : (p.records o s.toBeat (n + 1)).getLast? =
    (if p.least (o n) < (p.after o s n).toBeat then some (p.record (o n)) else none).or
      (p.records o s.toBeat n).getLast? := by
  rw [getLast?_records_succ_runningMin, toBeat_after]

/-- The records of a longer row are those of its first part, and those of the rest for the state reached there. -/
theorem records_add (m n : Nat) : p.records o s.toBeat (m + n) =
    p.records o s.toBeat m ++ p.records (fun k => o (k + m)) (p.after o s m).toBeat n := by
  rw [records_add_runningMin, toBeat_after]

theorem after_add (m n : Nat) : p.after o s (m + n) = p.after (fun k => o (k + m)) (p.after o s m) n := by
  have hbest : ∀ xs ys : List Layout, ((xs ++ ys).getLast?).or s.best = ys.getLast?.or (xs.getLast?.or s.best) := by
    intro xs ys
    rw [List.getLast?_append, Option.or_assoc]
  simp only [after, SearchState.mk.injEq]
  refine ⟨?_, by omega⟩
  rw [records_add, hbest]
  rfl

/-- A record has the least modulus of its trial. -/
theorem modulus_of_isRecord {bound : ℕ∞} {k : Nat} (h : IsRecord (fun k => p.least (o k)) bound k) :
    ((p.record (o k)).modulus.toNat : ℕ∞) = p.least (o k) := modulus_record h.1

/-- The moduli of the records decrease. -/
theorem pairwise_records (bound : ℕ∞) (n : Nat) :
    (p.records o bound n).Pairwise fun l l' => l'.modulus < l.modulus := by
  rw [records, List.pairwise_map]
  have hrange : ((List.range n).filter (IsRecord (fun k => p.least (o k)) bound)).Pairwise (· < ·) :=
    List.pairwise_lt_range.sublist List.filter_sublist
  refine hrange.imp_of_mem ?_
  intro j k hj hk hjk
  have hrecord_j : IsRecord (fun k => p.least (o k)) bound j := by simpa using (List.mem_filter.mp hj).2
  have hrecord_k : IsRecord (fun k => p.least (o k)) bound k := by simpa using (List.mem_filter.mp hk).2
  have hlt := hrecord_k.2 j hjk
  simp only at hlt
  rw [← modulus_of_isRecord hrecord_j, ← modulus_of_isRecord hrecord_k, Nat.cast_lt] at hlt
  exact UInt32.lt_iff_toNat_lt.mpr hlt

/-! ### The winner -/

/-- Trial `k` is the first of `n` with the least modulus, and that is below the bound. -/
structure Wins (f : Nat → ℕ∞) (bound : ℕ∞) (n k : Nat) : Prop where
  lt : k < n
  below : f k < bound
  least : ∀ j < n, f k ≤ f j
  first : ∀ j < k, f k < f j

/-- The best layout after some trials is the one of the winner, or the old one if no trial had a smaller modulus. -/
theorem best_after (n : Nat) :
    (∃ k, Wins (fun k => p.least (o k)) s.toBeat n k ∧ (p.after o s n).best = some (p.record (o k))) ∨
      ((∀ k < n, s.toBeat ≤ p.least (o k)) ∧ (p.after o s n).best = s.best) := by
  induction n with
  | zero => exact Or.inr ⟨by simp, by simp⟩
  | succ n ih =>
    rw [best_succ]
    by_cases h : p.least (o n) < runningMin (fun k => p.least (o k)) s.toBeat n
    · -- the new trial beats all before it
      obtain ⟨hbelow, hfirst⟩ := lt_runningMin_iff.mp h
      refine Or.inl ⟨n, ⟨Nat.lt_succ_self n, hbelow, ?_, hfirst⟩, by simp [h]⟩
      intro j hj
      rcases Nat.lt_succ_iff_lt_or_eq.mp hj with hj | rfl
      · exact (hfirst j hj).le
      · exact le_refl _
    · rw [if_neg h, Option.none_or]
      rw [not_lt, ← toBeat_after] at h
      rcases ih with ⟨k, hk, hbest⟩ | ⟨hnone, hbest⟩
      · rw [toBeat_of_some hbest, modulus_record hk.below] at h
        refine Or.inl ⟨k, ⟨hk.lt.trans (Nat.lt_succ_self n), hk.below, ?_, hk.first⟩, hbest⟩
        intro j hj
        rcases Nat.lt_succ_iff_lt_or_eq.mp hj with hj | rfl
        · exact hk.least j hj
        · exact h
      · rw [toBeat_congr hbest] at h
        refine Or.inr ⟨?_, hbest⟩
        intro k hk
        rcases Nat.lt_succ_iff_lt_or_eq.mp hk with hk | rfl
        · exact hnone k hk
        · exact h

end Problem

end Predictive
