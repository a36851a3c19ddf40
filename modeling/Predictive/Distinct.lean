/-!
# Distinct members of a list

`distinct l` keeps the first occurrence of every member of `l`, in order. It has the members of `l`
(`mem_distinct`) and no repetition (`nodup_distinct`).
-/

namespace Predictive

variable {α : Type} [DecidableEq α]

/-- The members of `l`, each once, in order of first appearance. -/
def distinct : List α → List α
  | [] => []
  | a :: l => a :: (distinct l).filter (fun b => decide (b ≠ a))

@[simp] theorem distinct_nil : distinct ([] : List α) = [] := rfl

@[simp] theorem mem_distinct {a : α} {l : List α} : a ∈ distinct l ↔ a ∈ l := by
  induction l with
  | nil => simp
  | cons b l ih => by_cases h : a = b <;> simp [distinct, ih, h]

theorem nodup_distinct (l : List α) : (distinct l).Nodup := by
  induction l with
  | nil => simp
  | cons b l ih =>
    refine List.nodup_cons.mpr ⟨by simp, ?_⟩
    exact List.Pairwise.filter _ ih

theorem distinct_eq_self {l : List α} (h : l.Nodup) : distinct l = l := by
  induction l with
  | nil => rfl
  | cons b l ih =>
    obtain ⟨hb, hl⟩ := List.nodup_cons.mp h
    have : ∀ a ∈ l, decide (a ≠ b) = true := fun a ha => by
      simp only [decide_eq_true_eq]; exact fun e => hb (e ▸ ha)
    simp only [distinct, ih hl, List.filter_eq_self.mpr this]

end Predictive
