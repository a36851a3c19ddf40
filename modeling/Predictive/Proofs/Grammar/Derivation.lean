import Predictive.Grammar.Derivation

/-!
# Splitting derivations

The parts of a sequence derive on their own: a derivation from `u ++ v` consists of one from `u` and one from `v`
(`Derives.split`). A terminal stays where it is, and a nonterminal either stays or is first replaced by one of its
alternatives (`Derives.nonterminal_cases`). So what vanishes and what begins with a terminal can be read off the
symbols of a sequence from the left (`vanishes_append`, `beginsWith_append`).
-/

namespace Predictive

/-- A member of `u ++ v` stands in `u` or in `v`. -/
theorem append_eq_append_cons {α : Type} {u v a b : List α} {x : α} (h : u ++ v = a ++ x :: b) :
    (∃ c, u = a ++ x :: c ∧ b = c ++ v) ∨ (∃ c, a = u ++ c ∧ v = c ++ x :: b) := by
  rcases List.append_eq_append_iff.mp h with ⟨c, ha, hv⟩ | ⟨c, hu, hb⟩
  · exact Or.inr ⟨c, ha, hv⟩
  · cases c with
    | nil => exact Or.inr ⟨[], by simpa using hu.symm, hb.symm⟩
    | cons y c =>
      rw [List.cons_append, List.cons.injEq] at hb
      obtain ⟨rfl, rfl⟩ := hb
      exact Or.inl ⟨c, hu, rfl⟩

namespace Grammar

variable {g : Grammar}

/-! ### The parts of a derivation -/

private theorem Step.split {u v w : List Symbol} (h : g.Step (u ++ v) w) :
    (∃ u', w = u' ++ v ∧ g.Step u u') ∨ (∃ v', w = u ++ v' ∧ g.Step v v') := by
  generalize hx : u ++ v = x at h
  cases h with
  | replace a b p hp =>
    rcases append_eq_append_cons hx with ⟨c, rfl, rfl⟩ | ⟨c, rfl, rfl⟩
    · exact Or.inl ⟨a ++ p.rhs ++ c, by simp, Step.replace a c p hp⟩
    · exact Or.inr ⟨c ++ p.rhs ++ b, by simp, Step.replace c b p hp⟩

/-- A derivation from a sequence in two parts consists of one from each part. -/
theorem Derives.split {u v w : List Symbol} (h : g.Derives (u ++ v) w) :
    ∃ u' v', w = u' ++ v' ∧ g.Derives u u' ∧ g.Derives v v' := by
  induction h with
  | refl => exact ⟨u, v, rfl, .refl u, .refl v⟩
  | tail _ hs ih =>
    obtain ⟨u', v', rfl, hu, hv⟩ := ih
    rcases hs.split with ⟨u'', rfl, hu'⟩ | ⟨v'', rfl, hv'⟩
    · exact ⟨u'', v', rfl, hu.tail hu', hv⟩
    · exact ⟨u', v'', rfl, hu, hv.tail hv'⟩

private theorem Step.ne_nil {w : List Symbol} (h : g.Step [] w) : False := by
  generalize hx : ([] : List Symbol) = x at h
  cases h with
  | replace a b p hp => simp at hx

theorem Derives.eq_nil {w : List Symbol} (h : g.Derives [] w) : w = [] := by
  induction h with
  | refl => rfl
  | tail _ hs ih =>
    rw [ih] at hs
    exact hs.ne_nil.elim

private theorem Derives.eq_terminal {t : Terminal} {w : List Symbol} (h : g.Derives [.terminal t] w) :
    w = [.terminal t] := by
  induction h with
  | refl => rfl
  | tail _ hs ih =>
    rw [ih] at hs
    generalize hy : [Symbol.terminal t] = y at hs
    cases hs with
    | replace a b p hp => cases a <;> simp at hy

/-- A terminal in front stays there. -/
theorem Derives.terminal_cons {t : Terminal} {u w : List Symbol} (h : g.Derives (.terminal t :: u) w) :
    ∃ u', w = .terminal t :: u' ∧ g.Derives u u' := by
  obtain ⟨x, u', rfl, hx, hu⟩ := Derives.split (u := [.terminal t]) h
  obtain rfl := hx.eq_terminal
  exact ⟨u', rfl, hu⟩

/-- A nonterminal stays, or is first replaced by one of its alternatives. -/
theorem Derives.nonterminal_cases {n : Nonterminal} {w : List Symbol} (h : g.Derives [.nonterminal n] w) :
    w = [.nonterminal n] ∨ ∃ p ∈ g.productions, p.lhs = n ∧ g.Derives p.rhs w := by
  induction h with
  | refl => exact Or.inl rfl
  | tail _ hs ih =>
    rcases ih with rfl | ⟨p, hp, hn, hd⟩
    · generalize hy : [Symbol.nonterminal n] = y at hs
      cases hs with
      | replace a b p hp =>
        cases a with
        | nil =>
          simp only [List.nil_append, List.cons.injEq, Symbol.nonterminal.injEq] at hy
          obtain ⟨rfl, rfl⟩ := hy
          exact Or.inr ⟨p, hp, rfl, by simpa using Derives.refl p.rhs⟩
        | cons c a => simp at hy
    · exact Or.inr ⟨p, hp, hn, hd.tail hs⟩

/-! ### Vanishing and first terminals -/

theorem vanishes_nil : g.Vanishes [] := Derives.refl []

theorem vanishes_append {u v : List Symbol} : g.Vanishes (u ++ v) ↔ g.Vanishes u ∧ g.Vanishes v := by
  constructor
  · intro h
    obtain ⟨u', v', hw, hu, hv⟩ := Derives.split h
    obtain ⟨rfl, rfl⟩ := List.append_eq_nil_iff.mp hw.symm
    exact ⟨hu, hv⟩
  · intro ⟨hu, hv⟩
    exact Derives.append hu hv

theorem vanishes_cons {x : Symbol} {u : List Symbol} : g.Vanishes (x :: u) ↔ g.Vanishes [x] ∧ g.Vanishes u :=
  vanishes_append (u := [x])

theorem not_vanishes_terminal {t : Terminal} : ¬ g.Vanishes [.terminal t] := by
  intro h
  obtain ⟨u', hu', -⟩ := Derives.terminal_cons h
  simp at hu'

theorem vanishes_nonterminal {n : Nonterminal} :
    g.Vanishes [.nonterminal n] ↔ ∃ p ∈ g.productions, p.lhs = n ∧ g.Vanishes p.rhs := by
  constructor
  · intro h
    rcases Derives.nonterminal_cases h with h | h
    · simp at h
    · exact h
  · rintro ⟨p, hp, rfl, hv⟩
    exact (Derives.production hp).trans hv

theorem beginsWith_append {u v : List Symbol} {t : Terminal} :
    g.BeginsWith (u ++ v) t ↔ g.BeginsWith u t ∨ g.Vanishes u ∧ g.BeginsWith v t := by
  constructor
  · rintro ⟨w, h⟩
    obtain ⟨u', v', hw, hu, hv⟩ := Derives.split h
    cases u' with
    | nil => exact Or.inr ⟨hu, w, hw ▸ hv⟩
    | cons x u' =>
      rw [List.cons_append, List.cons.injEq] at hw
      exact Or.inl ⟨u', hw.1 ▸ hu⟩
  · rintro (⟨w, h⟩ | ⟨hu, w, h⟩)
    · exact ⟨w ++ v, h.append (.refl v)⟩
    · exact ⟨w, Derives.append hu h⟩

theorem beginsWith_cons {x : Symbol} {u : List Symbol} {t : Terminal} :
    g.BeginsWith (x :: u) t ↔ g.BeginsWith [x] t ∨ g.Vanishes [x] ∧ g.BeginsWith u t :=
  beginsWith_append (u := [x])

theorem not_beginsWith_nil {t : Terminal} : ¬ g.BeginsWith [] t := by
  rintro ⟨w, h⟩
  exact absurd h.eq_nil (by simp)

theorem beginsWith_terminal {x t : Terminal} : g.BeginsWith [.terminal x] t ↔ t = x := by
  constructor
  · rintro ⟨w, h⟩
    obtain ⟨u', hu', -⟩ := h.terminal_cons
    simpa using (List.cons.inj hu').1
  · rintro rfl
    exact ⟨[], .refl _⟩

theorem beginsWith_nonterminal {n : Nonterminal} {t : Terminal} :
    g.BeginsWith [.nonterminal n] t ↔ ∃ p ∈ g.productions, p.lhs = n ∧ g.BeginsWith p.rhs t := by
  constructor
  · rintro ⟨w, h⟩
    rcases h.nonterminal_cases with h | ⟨p, hp, hn, hd⟩
    · simp at h
    · exact ⟨p, hp, hn, w, hd⟩
  · rintro ⟨p, hp, rfl, w, hd⟩
    exact ⟨w, (Derives.production hp).trans hd⟩

/-! ### The end marker -/

/-- No terminal of the sequence is the end marker or beyond it. -/
def Markless (g : Grammar) (u : List Symbol) : Prop := ∀ t, .terminal t ∈ u → t < g.eof

theorem Markless.append {u v : List Symbol} (hu : g.Markless u) (hv : g.Markless v) : g.Markless (u ++ v) := by
  intro t ht
  rcases List.mem_append.mp ht with ht | ht
  · exact hu t ht
  · exact hv t ht

theorem Markless.left {u v : List Symbol} (h : g.Markless (u ++ v)) : g.Markless u :=
  fun t ht => h t (List.mem_append_left v ht)

theorem Markless.right {u v : List Symbol} (h : g.Markless (u ++ v)) : g.Markless v :=
  fun t ht => h t (List.mem_append_right u ht)

theorem Markless.tail {x : Symbol} {u : List Symbol} (h : g.Markless (x :: u)) : g.Markless u :=
  Markless.right (u := [x]) h

theorem WellFormed.markless_rhs (hg : g.WellFormed) {p : Production} (hp : p ∈ g.productions) :
    g.Markless p.rhs :=
  hg.terminal_lt p hp

/-- A derivation brings in no end marker. -/
theorem Derives.markless (hg : g.WellFormed) {u v : List Symbol} (h : g.Derives u v) (hu : g.Markless u) :
    g.Markless v := by
  induction h with
  | refl => exact hu
  | tail _ hs ih =>
    cases hs with
    | replace a b p hp =>
      have hb : g.Markless b := fun t ht => ih t (by simp [ht])
      exact (ih.left.append (hg.markless_rhs hp)).append hb

/-! ### Symbols of a grammar -/

theorem WellFormed.eof_lt (hg : g.WellFormed) : g.eof < g.terminals.length := by
  have hne : g.terminals ≠ [] := by
    intro h
    have := hg.last_terminal
    simp [h] at this
  exact Nat.sub_lt (List.length_pos_iff.mpr hne) Nat.one_pos

/-- The number of the symbol is one of the grammar. -/
def InRange (g : Grammar) : Symbol → Prop
  | .terminal t => t < g.terminals.length
  | .nonterminal n => n < g.nonterminals.length

theorem WellFormed.inRange_rhs (hg : g.WellFormed) {p : Production} (hp : p ∈ g.productions) :
    ∀ x ∈ p.rhs, g.InRange x := by
  intro x hx
  cases x with
  | terminal t => exact Nat.lt_trans (hg.terminal_lt p hp t hx) hg.eof_lt
  | nonterminal n => exact hg.nonterminal_lt p hp n hx

end Grammar

end Predictive
