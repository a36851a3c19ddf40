import Mathlib.Data.List.GetD
import Mathlib.Data.List.Nodup

/-!
# Positions and look-ups in a list

Numbers stand for names by position: `idxOf` turns a name into its number and `getD` a number into its name. On a
list without repetition the two undo each other (`getD_idxOf`, `idxOf_getD`). In a list of pairs with distinct keys a
look-up finds exactly the members (`lookup_eq_some_iff_mem`).
-/

namespace Predictive

variable {α : Type} [DecidableEq α]

theorem idxOf?_of_mem {l : List α} {a : α} (h : a ∈ l) : l.idxOf? a = some (l.idxOf a) := by
  obtain ⟨i, hi⟩ := Option.isSome_iff_exists.mp (List.isSome_idxOf?.mpr h)
  rw [List.idxOf_eq_getD_idxOf?, hi, Option.getD_some]

theorem getD_idxOf {l : List α} {a : α} (h : a ∈ l) (b : α) : l.getD (l.idxOf a) b = a := by
  have hlt := List.idxOf_lt_length_of_mem h
  rw [List.getD_eq_getElem _ _ hlt, List.getElem_idxOf hlt]

theorem idxOf_getD {l : List α} (hl : l.Nodup) {i : Nat} (hi : i < l.length) (b : α) : l.idxOf (l.getD i b) = i := by
  rw [List.getD_eq_getElem _ _ hi, hl.idxOf_getElem]

omit [DecidableEq α] in
theorem getD_mem {l : List α} {i : Nat} (hi : i < l.length) (b : α) : l.getD i b ∈ l := by
  rw [List.getD_eq_getElem _ _ hi]
  exact List.getElem_mem hi

omit [DecidableEq α] in
theorem map_getD_range (l : List α) (b : α) : (List.range l.length).map (fun i => l.getD i b) = l := by
  refine List.ext_getElem (by simp) fun i hi hj => ?_
  simp [hj]

theorem getD_inj {l : List α} (hl : l.Nodup) {i j : Nat} (hi : i < l.length) (hj : j < l.length) {b : α}
    (h : l.getD i b = l.getD j b) : i = j := by
  rw [← idxOf_getD hl hi b, h, idxOf_getD hl hj b]

theorem idxOf_inj_of_mem {l : List α} {a b : α} (ha : a ∈ l) (h : l.idxOf a = l.idxOf b) : a = b :=
  (List.idxOf_inj ha).mp h

/-- A function that tells a value from the members of a list keeps its position. -/
theorem idxOf_map {β : Type} [DecidableEq β] (f : α → β) {l : List α} {a : α} (h : ∀ b ∈ l, f b = f a → b = a) :
    (l.map f).idxOf (f a) = l.idxOf a := by
  induction l with
  | nil => rfl
  | cons b l ih =>
    have ih' := ih fun c hc => h c (List.mem_cons_of_mem b hc)
    by_cases hb : b = a
    · simp [hb]
    · have hf : f b ≠ f a := fun hf => hb (h b List.mem_cons_self hf)
      rw [List.map_cons, List.idxOf_cons_ne _ hf, List.idxOf_cons_ne _ hb, ih']

theorem mem_zipIdx_iff_idxOf {l : List α} (hl : l.Nodup) {a : α} {i : Nat} :
    (a, i) ∈ l.zipIdx ↔ a ∈ l ∧ i = l.idxOf a := by
  rw [List.mk_mem_zipIdx_iff_getElem?, List.getElem?_eq_some_iff]
  constructor
  · rintro ⟨hi, rfl⟩
    exact ⟨List.getElem_mem hi, (hl.idxOf_getElem i hi).symm⟩
  · rintro ⟨ha, rfl⟩
    have hlt := List.idxOf_lt_length_of_mem ha
    exact ⟨hlt, List.getElem_idxOf hlt⟩

/-! ### Look-ups -/

theorem lookup_eq_none_iff_not_mem {α β : Type} [BEq α] [LawfulBEq α] {l : List (α × β)} {k : α} :
    l.lookup k = none ↔ k ∉ l.map Prod.fst := by
  simp only [List.lookup_eq_none_iff, bne_iff_ne, List.mem_map, not_exists, not_and]
  exact ⟨fun h p hp he => h p hp he.symm, fun h p hp he => h p hp he.symm⟩

theorem mem_of_lookup_eq_some {α β : Type} [BEq α] [LawfulBEq α] {l : List (α × β)} {k : α} {v : β}
    (h : l.lookup k = some v) : k ∈ l.map Prod.fst := by
  refine Classical.byContradiction fun hnot => ?_
  rw [lookup_eq_none_iff_not_mem.mpr hnot] at h
  simp at h

/-- Values that are distinct and not taken can be taken one after the other. -/
theorem nodup_disjoint_cons {α : Type} {a : α} {l taken : List α} :
    (a :: l).Nodup ∧ (a :: l).Disjoint taken ↔ a ∉ taken ∧ l.Nodup ∧ l.Disjoint (a :: taken) := by
  rw [List.nodup_cons, List.disjoint_cons_left, List.disjoint_cons_right]
  constructor
  · rintro ⟨⟨hnot, hnodup⟩, hfree, hdisjoint⟩
    exact ⟨hfree, hnodup, hnot, hdisjoint⟩
  · rintro ⟨hfree, hnodup, hnot, hdisjoint⟩
    exact ⟨⟨hnot, hnodup⟩, hfree, hdisjoint⟩

/-- In a list with distinct keys a look-up finds exactly the members. -/
theorem lookup_eq_some_iff_mem {α β : Type} [BEq α] [LawfulBEq α] {l : List (α × β)}
    (h : (l.map Prod.fst).Nodup) {k : α} {v : β} : l.lookup k = some v ↔ (k, v) ∈ l := by
  induction l with
  | nil => simp
  | cons x l ih =>
    obtain ⟨a, b⟩ := x
    rw [List.map_cons, List.nodup_cons] at h
    rw [List.lookup_cons]
    split
    · rename_i heq
      obtain rfl := eq_of_beq heq
      have hnot : (k, v) ∉ l := fun hm => h.1 (List.mem_map.mpr ⟨(k, v), hm, rfl⟩)
      simp [hnot, eq_comm]
    · rename_i hne
      have hka : k ≠ a := by simpa using hne
      simp [hka, ih h.2]

end Predictive
