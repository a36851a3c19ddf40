import Mathlib.Logic.ExistsUnique

/-!
# Lists that agree but for one place

Lists of one length that differ at exactly one index (`DifferOnce`) are those that can be split around two distinct
members (`differOnce_iff`). More generally a relation may say how the two members differ (`OneApart`). If lists are one
apart, and what is made from the two members is one apart again, then so is what is made from the lists
(`OneApart.map`, `OneApart.flatMap`).
-/

namespace Predictive

variable {α β : Type}

/-- Two lists of one length that differ at exactly one index. -/
def DifferOnce (l l' : List α) : Prop := l.length = l'.length ∧ ∃! i : Nat, l[i]? ≠ l'[i]?

/-- Two lists that agree but for one place, where their members are related. -/
def OneApart (R : α → α → Prop) (l l' : List α) : Prop :=
  ∃ before x x' after, l = before ++ x :: after ∧ l' = before ++ x' :: after ∧ R x x'

theorem differOnce_iff {l l' : List α} : DifferOnce l l' ↔ OneApart (· ≠ ·) l l' := by
  constructor
  · rintro ⟨hlength, i, hi, hunique⟩
    have hlt : i < l.length := by
      refine Classical.byContradiction fun hle => hi ?_
      rw [List.getElem?_eq_none (by omega), List.getElem?_eq_none (by omega)]
    have hset : l' = l.set i l'[i] := by
      refine List.ext_getElem? fun j => ?_
      rw [List.getElem?_set]
      by_cases hij : i = j
      · subst hij
        simp [hlt, hlength ▸ hlt]
      · rw [if_neg hij]
        exact (Classical.byContradiction fun hne => hij (hunique j hne).symm).symm
    refine ⟨l.take i, l[i], l'[i], l.drop (i + 1), ?_, ?_, ?_⟩
    · rw [← List.drop_eq_getElem_cons hlt, List.take_append_drop]
    · rw [List.set_eq_take_append_cons_drop, if_pos hlt] at hset
      exact hset
    · intro heq
      rw [List.getElem?_eq_getElem hlt, List.getElem?_eq_getElem (hlength ▸ hlt), heq] at hi
      exact hi rfl
  · rintro ⟨before, x, x', after, rfl, rfl, hne⟩
    refine ⟨by simp, before.length, by simpa using hne, ?_⟩
    intro j hj
    refine Classical.byContradiction fun hother => hj ?_
    rcases Nat.lt_or_gt_of_ne hother with hlt | hgt
    · rw [List.getElem?_append_left hlt, List.getElem?_append_left hlt]
    · obtain ⟨k, hk⟩ : ∃ k, j - before.length = k + 1 := ⟨j - before.length - 1, by omega⟩
      rw [List.getElem?_append_right (by omega), List.getElem?_append_right (by omega), hk,
        List.getElem?_cons_succ, List.getElem?_cons_succ]

namespace OneApart

variable {R : α → α → Prop} {S : β → β → Prop} {l l' : List α}

theorem length_eq (h : OneApart R l l') : l.length = l'.length := by
  obtain ⟨before, x, x', after, rfl, rfl, -⟩ := h
  simp

theorem append_left (h : OneApart R l l') (u : List α) : OneApart R (u ++ l) (u ++ l') := by
  obtain ⟨before, x, x', after, rfl, rfl, hx⟩ := h
  exact ⟨u ++ before, x, x', after, by simp, by simp, hx⟩

theorem append_right (h : OneApart R l l') (v : List α) : OneApart R (l ++ v) (l' ++ v) := by
  obtain ⟨before, x, x', after, rfl, rfl, hx⟩ := h
  exact ⟨before, x, x', after ++ v, by simp, by simp, hx⟩

theorem map {f : α → β} (h : OneApart R l l') (hf : ∀ x x', R x x' → S (f x) (f x')) :
    OneApart S (l.map f) (l'.map f) := by
  obtain ⟨before, x, x', after, rfl, rfl, hx⟩ := h
  exact ⟨before.map f, f x, f x', after.map f, by simp, by simp, hf x x' hx⟩

theorem flatMap {f : α → List β} (h : OneApart R l l') (hf : ∀ x x', R x x' → OneApart S (f x) (f x')) :
    OneApart S (l.flatMap f) (l'.flatMap f) := by
  obtain ⟨before, x, x', after, rfl, rfl, hx⟩ := h
  have hinside := ((hf x x' hx).append_right (after.flatMap f)).append_left (before.flatMap f)
  simpa using hinside

/-- Two functions that agree but for one member of a list. -/
theorem of_map {f f' : α → β} (hl : l.Nodup) {x : α} (hx : x ∈ l) (hne : ∀ y, y ≠ x → f y = f' y)
    (hS : S (f x) (f' x)) : OneApart S (l.map f) (l.map f') := by
  obtain ⟨before, after, rfl⟩ := List.append_of_mem hx
  have hsame : ∀ other : List α, x ∉ other → other.map f = other.map f' := by
    intro other hnot
    exact List.map_congr_left fun y hy => hne y fun h => hnot (h ▸ hy)
  rw [List.nodup_append, List.nodup_cons] at hl
  obtain ⟨-, ⟨hafter, -⟩, hdisjoint⟩ := hl
  have hbefore : x ∉ before := fun hmem => hdisjoint x hmem x List.mem_cons_self rfl
  refine ⟨before.map f, f x, f' x, after.map f, by simp, ?_, hS⟩
  rw [hsame before hbefore, hsame after hafter, List.map_append, List.map_cons]

end OneApart

end Predictive
