import Predictive.Proofs.Layout.Placement
import Predictive.Proofs.Search.Stamps
import Predictive.Search.Trial

/-!
# What a trial finds

A modulus that a trial finds gives the keys of the table buckets of their own, is no smaller than the number of keys,
and fits into 32 bits (`Problem.trial_some`), whatever stamps were left over from tests before.
-/

namespace Predictive

theorem rawHashes_eq_ok {g : Grammar} {table : Table} {num : Numbering} {major : Major} {shift : Nat}
    {raws : List Nat} (h : rawHashes g table num major shift = .ok raws) :
    raws = table.keys.map (keyHash num major shift) := by
  unfold rawHashes at h
  split at h
  · simp at h
  · split at h
    · rename_i places hplaces
      obtain rfl := Except.ok.inj h
      exact (place_eq_ok.mp hplaces).1
    · simp at h

namespace Hit

/-- A modulus in range under which the keys of a table have buckets of their own. -/
structure Good (table : Table) (num : Numbering) (shift : Nat) (h : Hit) : Prop where
  size_le : max 1 table.size ≤ h.modulus
  lt_size : h.modulus < UInt32.size
  nodup : (table.keys.map fun key => keyHash num h.major shift key % h.modulus).Nodup

variable {table : Table} {num : Numbering} {shift : Nat}

private theorem ceiling_lt (raws : List Nat) (bound : Option Nat) (found : Option Hit) :
    ceiling raws bound found < UInt32.size := by
  have htop : min (raws.foldl max 0 + 1) (UInt32.size - 1) < UInt32.size :=
    Nat.lt_of_le_of_lt (Nat.min_le_right _ _) (by decide)
  unfold ceiling
  cases bound <;> cases found <;> simp only [Option.elim] <;> omega

/-- What is found with one symbol as the major one is good, if what was found before is. -/
theorem good_of_tryMajor {bound : Option Nat} {found : Option Hit} {major : Major} {s : Stamps} {h : Hit}
    (hfound : ∀ h, found = some h → h.Good table num shift)
    (hh : (tryMajor (max table.size 1) bound found major (table.keys.map (keyHash num major shift)) s).1 = some h) :
    h.Good table num shift := by
  unfold tryMajor at hh
  simp only at hh
  split at hh
  · rename_i m hm
    obtain rfl := Option.some.inj hh
    obtain ⟨hle, hlt, hnodup⟩ := Stamps.leastModulus_some (by omega) hm
    have hceiling := ceiling_lt (table.keys.map (keyHash num major shift)) bound found
    refine ⟨?_, ?_, ?_⟩
    · rw [Nat.max_comm]
      exact hle
    · show m < UInt32.size
      omega
    · rwa [List.map_map] at hnodup
  · exact hfound h hh

end Hit

/-- A trial of a table with keys cannot do with a shift that leaves no bits. -/
theorem Problem.shift_lt_of_trial {p : Problem} {o : Orders} {bound : Option Nat} {s : Stamps}
    {r : Option Hit × Stamps} (h : p.trial o bound s = .ok r) (hkeys : p.table.keys ≠ []) : p.shift.toNat < 64 := by
  simp only [trial, bind_eq_ok] at h
  obtain ⟨raws, hraws, -⟩ := h
  refine Nat.lt_of_not_le fun hwide => ?_
  rw [rawHashes, if_pos ⟨hkeys, hwide⟩] at hraws
  simp at hraws

/-- A trial finds a good modulus, if any. -/
theorem Problem.trial_some {p : Problem} {o : Orders} {bound : Option Nat} {s s' : Stamps} {h : Hit}
    (ht : p.trial o bound s = .ok (some h, s')) :
    h.Good p.table (.ofOrders o.terminals o.nonterminals) p.shift.toNat := by
  simp only [trial, bind_eq_ok, pure, Except.pure, Except.ok.injEq] at ht
  obtain ⟨byNonterminal, hn, byTerminal, ht, hhit⟩ := ht
  obtain rfl := rawHashes_eq_ok hn
  obtain rfl := rawHashes_eq_ok ht
  refine Hit.good_of_tryMajor (fun found hfound => ?_) (congrArg Prod.fst hhit)
  exact Hit.good_of_tryMajor (fun _ hnone => by simp at hnone) hfound

end Predictive
