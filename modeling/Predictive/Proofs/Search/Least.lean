import Mathlib.Data.ENat.Lattice
import Mathlib.Data.List.Perm.Subperm
import Predictive.Proofs.Search.Trial

/-!
# The least modulus of a trial

The orders of a trial have a least modulus of 32 bits, with either symbol as the major one, under which the keys of the
table have buckets of their own (`Problem.least`). A trial only looks at moduli from the number of keys on, up to one
above the largest raw hash, below the bound, and with the terminal as the major symbol below what the nonterminal gave.
None of this loses anything: fewer buckets than keys cannot do, a modulus above all raw hashes does if these are
distinct, and the rest is not asked for. So a trial finds the least modulus exactly if it is below the bound
(`Problem.trial_of_not_collides`), and fails exactly if raw hashes collide, whatever the bound is
(`Problem.trial_of_collides`).
-/

namespace Predictive

/-! ### Residues -/

private theorem length_le_of_nodup_mod {raws : List Nat} {m : Nat} (hm : 0 < m) (h : (raws.map (· % m)).Nodup) :
    raws.length ≤ m := by
  have hsub : raws.map (· % m) ⊆ List.range m := by
    intro x hx
    obtain ⟨raw, -, rfl⟩ := List.mem_map.mp hx
    exact List.mem_range.mpr (Nat.mod_lt raw hm)
  simpa using (List.subperm_of_subset h hsub).length_le

private theorem nodup_mod_of_lt {raws : List Nat} {m : Nat} (h : raws.Nodup) (hlt : ∀ raw ∈ raws, raw < m) :
    (raws.map (· % m)).Nodup := by
  have hid : raws.map (· % m) = raws.map id := List.map_congr_left fun raw hraw => Nat.mod_eq_of_lt (hlt raw hraw)
  rwa [hid, List.map_id]

private theorem le_foldl_max (raws : List Nat) (a : Nat) :
    a ≤ raws.foldl max a ∧ ∀ raw ∈ raws, raw ≤ raws.foldl max a := by
  induction raws generalizing a with
  | nil => simp
  | cons raw raws ih =>
    obtain ⟨hle, hall⟩ := ih (max a raw)
    rw [List.foldl_cons]
    refine ⟨by omega, ?_⟩
    intro x hx
    rcases List.mem_cons.mp hx with rfl | hx
    · omega
    · exact hall x hx

/-! ### Moduli of orders -/

namespace Problem

section Moduli

variable (p : Problem) (o : Orders)

/-- The raw hashes of the keys. -/
def hashes (major : Major) : List Nat :=
  p.table.keys.map (keyHash (.ofOrders o.terminals o.nonterminals) major p.shift.toNat)

/-- Two keys have one raw hash, with one of the symbols as the major one. -/
def Collides : Prop := ∃ major, ¬ (p.hashes o major).Nodup

/-- A modulus of 32 bits gives the keys buckets of their own. -/
def Apart (major : Major) (m : Nat) : Prop := 0 < m ∧ m < UInt32.size ∧ ((p.hashes o major).map (· % m)).Nodup

instance (major : Major) (m : Nat) : Decidable (p.Apart o major m) := inferInstanceAs (Decidable (_ ∧ _ ∧ _))

/-- The least modulus that gives the keys buckets of their own; infinite if there is none. -/
noncomputable def least : ℕ∞ := sInf {x | ∃ m : Nat, x = m ∧ ∃ major, p.Apart o major m}

/-- The layout with the least modulus. The nonterminal is the major symbol if both can be. -/
noncomputable def record : Layout :=
  let m := (p.least o).toNat
  -- the largest raw hash is no part of a layout
  p.layout o ⟨if p.Apart o .nonterminal m then .nonterminal else .terminal, m, 0⟩

end Moduli

variable {p : Problem} {o : Orders}

private theorem least_eq {m : Nat} {major : Major} (hm : p.Apart o major m)
    (hleast : ∀ major j, p.Apart o major j → m ≤ j) : p.least o = m := by
  apply le_antisymm
  · exact sInf_le ⟨m, rfl, major, hm⟩
  · apply le_sInf
    rintro _ ⟨j, rfl, major', hj⟩
    exact Nat.cast_le.mpr (hleast major' j hj)

private theorem le_least {b : ℕ∞} (h : ∀ major (j : Nat), p.Apart o major j → b ≤ j) : b ≤ p.least o := by
  apply le_sInf
  rintro _ ⟨j, rfl, major, hj⟩
  exact h major j hj

/-- A finite least modulus is one. -/
theorem exists_apart_of_least_lt {b : ℕ∞} (h : p.least o < b) :
    ∃ m : Nat, p.least o = m ∧ ∃ major, p.Apart o major m := by
  have hne : {x : ℕ∞ | ∃ m : Nat, x = m ∧ ∃ major, p.Apart o major m}.Nonempty := by
    rw [Set.nonempty_iff_ne_empty]
    intro hempty
    rw [least, hempty, sInf_empty] at h
    exact absurd h not_top_lt
  exact csInf_mem hne

theorem modulus_record {b : ℕ∞} (h : p.least o < b) : ((p.record o).modulus.toNat : ℕ∞) = p.least o := by
  obtain ⟨m, hm, major, -, hlt, -⟩ := exists_apart_of_least_lt h
  have hmod : (UInt32.ofNat m).toNat = m := UInt32.toNat_ofNat_of_lt' hlt
  simp only [record, layout, hm, ENat.toNat_natCast, hmod]

/-- Fewer buckets than keys cannot do. -/
private theorem Apart.floor_le {major : Major} {m : Nat} (hm : p.Apart o major m) : p.floor ≤ m := by
  have hlen : (p.hashes o major).length = p.table.size := by simp [hashes, Table.keys, Table.size]
  have hle := length_le_of_nodup_mod hm.1 hm.2.2
  have hpos := hm.1
  unfold floor
  omega

/-- The layout of the least modulus is that of a good one. -/
theorem exists_good_record {b : ℕ∞} (h : p.least o < b) :
    ∃ hit : Hit, hit.Good p.table (.ofOrders o.terminals o.nonterminals) p.shift.toNat ∧
      p.record o = p.layout o hit := by
  obtain ⟨m, hm, major, hmajor⟩ := exists_apart_of_least_lt h
  refine ⟨⟨if p.Apart o .nonterminal m then .nonterminal else .terminal, m, 0⟩, ?_, by simp [record, hm]⟩
  have hapart : p.Apart o (if p.Apart o .nonterminal m then .nonterminal else .terminal) m := by
    by_cases hn : p.Apart o .nonterminal m
    · rwa [if_pos hn]
    · rw [if_neg hn]
      cases major with
      | nonterminal => exact absurd hmajor hn
      | terminal => exact hmajor
  have hfloor := hapart.floor_le
  have hnodup := hapart.2.2
  rw [hashes, List.map_map] at hnodup
  unfold floor at hfloor
  exact ⟨by simpa [Nat.max_comm] using hfloor, hapart.2.1, hnodup⟩

/-- One above the largest raw hash does, so the least modulus is no larger. -/
private theorem Apart.le_top {major : Major} (hno : (p.hashes o major).Nodup) {m : Nat} (hm : p.Apart o major m)
    (hleast : ∀ j, p.Apart o major j → m ≤ j) : m ≤ (p.hashes o major).foldl max 0 + 1 := by
  have hlt : ∀ raw ∈ p.hashes o major, raw < (p.hashes o major).foldl max 0 + 1 := by
    intro raw hraw
    have hle := (le_foldl_max (p.hashes o major) 0).2 raw hraw
    omega
  by_contra hgt
  have hsmall := hm.2.1
  have hle := hleast _ ⟨by omega, by omega, nodup_mod_of_lt hno hlt⟩
  omega

/-- The layout of the least modulus, with the nonterminal as the major symbol if it can be. -/
private theorem layout_eq_record {h : Hit} (hapart : p.Apart o h.major h.modulus)
    (hleast : ∀ major j, p.Apart o major j → h.modulus ≤ j)
    (hmajor : h.major = .terminal → ¬ p.Apart o .nonterminal h.modulus) : p.layout o h = p.record o := by
  obtain ⟨major, m, largest⟩ := h
  simp only at hapart hleast hmajor
  have hm : p.least o = m := least_eq hapart hleast
  have hwhich : (if p.Apart o .nonterminal m then Major.nonterminal else .terminal) = major := by
    cases major with
    | nonterminal => exact if_pos hapart
    | terminal => exact if_neg (hmajor rfl)
  simp only [record, hm, ENat.toNat_natCast, hwhich]
  rfl

end Problem

/-! ### Bounds -/

/-- The modulus to stay below, if there is one. -/
def asBound (bound : Option Nat) : ℕ∞ := bound.elim ⊤ (↑)

namespace Hit

theorem lt_asBound {m : Nat} {bound : Option Nat} : (m : ℕ∞) < asBound bound ↔ ∀ b, bound = some b → m < b := by
  cases bound with
  | none => simp [asBound]
  | some b => simp [asBound]

/-- What the largest modulus to try stands for. -/
private theorem le_ceiling_iff {raws : List Nat} {bound : Option Nat} {found : Option Hit} {m : Nat} (hm : 0 < m) :
    m ≤ ceiling raws bound found ↔ m ≤ raws.foldl max 0 + 1 ∧ m < UInt32.size ∧
      (m : ℕ∞) < min (asBound bound) (asBound (found.map (·.modulus))) := by
  have hsize : UInt32.size = 4294967296 := rfl
  rw [lt_min_iff, lt_asBound, lt_asBound]
  unfold ceiling
  cases bound with
  | none =>
    cases found with
    | none =>
      simp only [Option.elim, Option.map, reduceCtorEq, false_implies, implies_true, and_true]
      omega
    | some h =>
      simp only [Option.elim, Option.map, reduceCtorEq, false_implies, implies_true, true_and, Option.some.injEq,
        forall_eq']
      omega
  | some b =>
    cases found with
    | none =>
      simp only [Option.elim, Option.map, reduceCtorEq, false_implies, implies_true, and_true, Option.some.injEq,
        forall_eq']
      omega
    | some h =>
      simp only [Option.elim, Option.map, Option.some.injEq, forall_eq']
      omega

/-- With one symbol as the major one the least modulus is found if it is below the bound and below what was found
before; otherwise that stays. -/
private theorem tryMajor_cases {p : Problem} {o : Orders} {major : Major} (hno : (p.hashes o major).Nodup)
    {stamps : Stamps} (hv : stamps.Valid) (bound : Option Nat) (found : Option Hit) {found' : Option Hit}
    {stamps' : Stamps}
    (h : tryMajor p.floor bound found major (p.hashes o major) stamps = (found', stamps')) :
    stamps'.Valid ∧
      ((∃ m, p.Apart o major m ∧ (∀ j, p.Apart o major j → m ≤ j) ∧
          (m : ℕ∞) < min (asBound bound) (asBound (found.map (·.modulus))) ∧
          found' = some ⟨major, m, (p.hashes o major).foldl max 0⟩) ∨
        ((∀ j : Nat, p.Apart o major j → min (asBound bound) (asBound (found.map (·.modulus))) ≤ j) ∧
          found' = found)) := by
  have hfloor : 0 < p.floor := by
    unfold Problem.floor
    omega
  obtain ⟨hscan, hvalid⟩ := hv.leastModulus_eq (p.hashes o major)
    (ceiling (p.hashes o major) bound found + 1 - p.floor) hfloor
  unfold tryMajor at h
  generalize hresult : Stamps.leastModulus (p.hashes o major) (ceiling (p.hashes o major) bound found + 1 - p.floor)
    p.floor stamps = result at h hscan hvalid
  obtain ⟨modulus, after⟩ := result
  simp only at hscan hvalid
  cases modulus with
  | some m =>
    obtain ⟨rfl, rfl⟩ := Prod.mk.inj h
    have hfind := List.find?_range'_eq_some.mp hscan.symm
    simp only [decide_eq_true_eq, List.mem_range'_1, Bool.not_eq_true', decide_eq_false_iff_not] at hfind
    obtain ⟨hnodup, ⟨hle, hlt⟩, hbefore⟩ := hfind
    have hpos : 0 < m := by omega
    have hceil : m ≤ ceiling (p.hashes o major) bound found := by omega
    obtain ⟨-, hsize, hbound⟩ := (le_ceiling_iff hpos).mp hceil
    refine ⟨hvalid, Or.inl ⟨m, ⟨hpos, hsize, hnodup⟩, ?_, hbound, rfl⟩⟩
    intro j hj
    by_contra hlt
    exact hbefore j hj.floor_le (by omega) hj.2.2
  | none =>
    obtain ⟨rfl, rfl⟩ := Prod.mk.inj h
    have hfind := List.find?_range'_eq_none.mp hscan.symm
    simp only [Bool.not_eq_true', decide_eq_false_iff_not] at hfind
    refine ⟨hvalid, Or.inr ⟨?_, rfl⟩⟩
    intro j hj
    -- the least such modulus would have been found
    have hex : ∃ i, p.Apart o major i := ⟨j, hj⟩
    have hmin := Nat.find_spec hex
    have hmin_le : ∀ i, p.Apart o major i → Nat.find hex ≤ i := fun i hi => Nat.find_min' hex hi
    by_contra hlt
    rw [not_le] at hlt
    have hbound : ((Nat.find hex : Nat) : ℕ∞) < min (asBound bound) (asBound (found.map (·.modulus))) :=
      lt_of_le_of_lt (Nat.cast_le.mpr (hmin_le j hj)) hlt
    have hceil := (le_ceiling_iff hmin.1).mpr ⟨hmin.le_top hno hmin_le, hmin.2.1, hbound⟩
    have hge := hmin.floor_le
    exact hfind _ hge (by omega) hmin.2.2

/-- After both symbols were tried as the major one, the least modulus of all is found if it is below the bound. -/
private theorem tryBoth_cases {p : Problem} {o : Orders} (hno : ∀ major, (p.hashes o major).Nodup) {stamps : Stamps}
    (hv : stamps.Valid) {bound : Option Nat} {found hit : Option Hit} {stamps₁ stamps₂ : Stamps}
    (hfirst : tryMajor p.floor bound none .nonterminal (p.hashes o .nonterminal) stamps = (found, stamps₁))
    (hsecond : tryMajor p.floor bound found .terminal (p.hashes o .terminal) stamps₁ = (hit, stamps₂)) :
    stamps₂.Valid ∧
      ((∃ h, hit = some h ∧ p.Apart o h.major h.modulus ∧ (∀ major j, p.Apart o major j → h.modulus ≤ j) ∧
          (h.modulus : ℕ∞) < asBound bound ∧ (h.major = .terminal → ¬ p.Apart o .nonterminal h.modulus)) ∨
        (hit = none ∧ ∀ major (j : Nat), p.Apart o major j → asBound bound ≤ j)) := by
  obtain ⟨hv₁, hcases₁⟩ := tryMajor_cases (hno .nonterminal) hv bound none hfirst
  obtain ⟨hv₂, hcases₂⟩ := tryMajor_cases (hno .terminal) hv₁ bound found hsecond
  have htop : min (asBound bound) (asBound ((none : Option Hit).map (·.modulus))) = asBound bound := by simp [asBound]
  rw [htop] at hcases₁
  refine ⟨hv₂, ?_⟩
  rcases hcases₁ with ⟨m, hapart, hmin, hlt, rfl⟩ | ⟨hnone, rfl⟩
  · have hbelow : min (asBound bound) (asBound ((some (⟨.nonterminal, m, (p.hashes o .nonterminal).foldl max 0⟩ :
        Hit)).map (·.modulus))) = (m : ℕ∞) := min_eq_right hlt.le
    rw [hbelow] at hcases₂
    rcases hcases₂ with ⟨m', hapart', hmin', hlt', rfl⟩ | ⟨hnone', rfl⟩
    · -- the terminal does better, so the nonterminal does not do with its modulus
      have hless : m' < m := Nat.cast_lt.mp hlt'
      refine Or.inl ⟨_, rfl, hapart', ?_, hlt'.trans hlt, ?_⟩
      · intro major j hj
        cases major with
        | nonterminal => exact hless.le.trans (hmin j hj)
        | terminal => exact hmin' j hj
      · intro _ hj
        exact absurd (hmin m' hj) (Nat.not_le.mpr hless)
    · refine Or.inl ⟨_, rfl, hapart, ?_, hlt, by simp⟩
      intro major j hj
      cases major with
      | nonterminal => exact hmin j hj
      | terminal => exact Nat.cast_le.mp (hnone' j hj)
  · rw [htop] at hcases₂
    rcases hcases₂ with ⟨m, hapart, hmin, hlt, rfl⟩ | ⟨hnone', rfl⟩
    · -- the nonterminal does only with moduli that are not below the bound
      have hless : ∀ j, p.Apart o .nonterminal j → m < j := by
        intro j hj
        exact Nat.cast_lt.mp (lt_of_lt_of_le hlt (hnone j hj))
      refine Or.inl ⟨_, rfl, hapart, ?_, hlt, fun _ hj => Nat.lt_irrefl m (hless m hj)⟩
      intro major j hj
      cases major with
      | nonterminal => exact (hless j hj).le
      | terminal => exact hmin j hj
    · refine Or.inr ⟨rfl, ?_⟩
      intro major j hj
      cases major with
      | nonterminal => exact hnone j hj
      | terminal => exact hnone' j hj

end Hit

/-! ### Trials -/

namespace Problem

variable {p : Problem} {o : Orders} (hs : p.shift.toNat < 64)

include hs

/-- A trial whose raw hashes collide fails, whatever bound and stamps it is given. -/
theorem trial_of_collides (h : p.Collides o) :
    ∃ first second, ∀ bound stamps, p.trial o bound stamps = .error (.rawCollision first second p.shift.toNat) := by
  by_cases hn : (p.hashes o .nonterminal).Nodup
  · have ht : ¬ (p.hashes o .terminal).Nodup := by
      obtain ⟨major, hmajor⟩ := h
      cases major with
      | nonterminal => exact absurd hn hmajor
      | terminal => exact hmajor
    obtain ⟨first, second, herror⟩ := rawHashes_of_not_nodup (g := p.grammar) hs ht
    refine ⟨first, second, fun bound stamps => ?_⟩
    simp only [trial, rawHashes_of_nodup (g := p.grammar) hs hn, herror, bind, Except.bind]
  · obtain ⟨first, second, herror⟩ := rawHashes_of_not_nodup (g := p.grammar) hs hn
    refine ⟨first, second, fun bound stamps => ?_⟩
    simp only [trial, herror, bind, Except.bind]

/-- Any other trial succeeds, with the least modulus if it is below the bound. -/
theorem trial_of_not_collides (hno : ¬ p.Collides o) {stamps : Stamps} (hv : stamps.Valid) (bound : Option Nat) :
    ∃ hit stamps', p.trial o bound stamps = .ok (hit, stamps') ∧ stamps'.Valid ∧
      hit.map (p.layout o) = if p.least o < asBound bound then some (p.record o) else none := by
  have hnodup : ∀ major, (p.hashes o major).Nodup := by
    intro major
    by_contra hdup
    exact hno ⟨major, hdup⟩
  rcases hfirst : Hit.tryMajor p.floor bound none .nonterminal (p.hashes o .nonterminal) stamps with ⟨found, stamps₁⟩
  rcases hsecond : Hit.tryMajor p.floor bound found .terminal (p.hashes o .terminal) stamps₁ with ⟨hit, stamps₂⟩
  have htrial : p.trial o bound stamps = .ok (hit, stamps₂) := by
    have hn := rawHashes_of_nodup (g := p.grammar) hs (hnodup .nonterminal)
    have ht := rawHashes_of_nodup (g := p.grammar) hs (hnodup .terminal)
    simp only [hashes] at hfirst hsecond
    simp only [trial, hn, ht, bind, Except.bind, pure, Except.pure, hfirst, hsecond]
  obtain ⟨hvalid, hcases⟩ := Hit.tryBoth_cases hnodup hv hfirst hsecond
  refine ⟨hit, stamps₂, htrial, hvalid, ?_⟩
  rcases hcases with ⟨h, rfl, hapart, hleast, hlt, hmajor⟩ | ⟨rfl, hnone⟩
  · have hm : p.least o = h.modulus := least_eq hapart hleast
    rw [if_pos (hm ▸ hlt), Option.map_some, layout_eq_record hapart hleast hmajor]
  · have hle : asBound bound ≤ p.least o := le_least hnone
    rw [if_neg (not_lt.mpr hle), Option.map_none]

end Problem

end Predictive
