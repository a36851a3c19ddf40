import Predictive.Packed.Basic
import Predictive.Proofs.Outcome
import Predictive.Proofs.Positions

/-!
# Symbols with names

Symbols can be named exactly if their names are identifiers and differ (`identifiers_eq_ok`), whatever their order is.
So whether the symbols of a layout can be named depends only on which symbols it orders (`SymbolNames.exists_ofLayout`),
and nothing else can go wrong with them (`SymbolNames.naming_of_error`).
-/

namespace Predictive

/-- Texts whose names are identifiers and differ. -/
def Nameable (displays : List String) : Prop :=
  (∀ display ∈ displays, isIdentifier (identifier display) = true) ∧ (displays.map identifier).Nodup

/-- Whether texts have names does not depend on their order. -/
theorem nameable_perm {displays displays' : List String} (h : displays.Perm displays') :
    Nameable displays ↔ Nameable displays' := by
  unfold Nameable
  rw [(h.map identifier).nodup_iff]
  exact and_congr_left fun _ => ⟨fun hd x hx => hd x (h.mem_iff.mpr hx), fun hd x hx => hd x (h.mem_iff.mp hx)⟩

private theorem identifiersFrom_eq_ok {owners : List (String × String)} {displays names : List String} :
    identifiersFrom owners displays = .ok names ↔ names = displays.map identifier ∧
      (∀ display ∈ displays, isIdentifier (identifier display) = true) ∧
      (displays.map identifier).Nodup ∧ (displays.map identifier).Disjoint (owners.map Prod.fst) := by
  induction displays generalizing owners names with
  | nil =>
    simp only [identifiersFrom, Except.ok.injEq, List.map_nil]
    exact ⟨fun h => ⟨h.symm, by simp, by simp⟩, fun h => h.1.symm⟩
  | cons display displays ih =>
    rw [identifiersFrom, List.map_cons, nodup_disjoint_cons, List.forall_mem_cons]
    by_cases hid : isIdentifier (identifier display) = true
    · cases hl : owners.lookup (identifier display) with
      | some first =>
        simp only [hid, if_true, reduceCtorEq, false_iff]
        exact fun h => h.2.2.1 (mem_of_lookup_eq_some hl)
      | none =>
        have hfree := lookup_eq_none_iff_not_mem.mp hl
        simp only [hid, if_true, map_eq_ok, ih, List.map_cons]
        constructor
        · rintro ⟨rest, ⟨rfl, hall, hrest⟩, rfl⟩
          exact ⟨rfl, ⟨trivial, hall⟩, hfree, hrest⟩
        · rintro ⟨rfl, ⟨-, hall⟩, -, hrest⟩
          exact ⟨_, ⟨rfl, hall, hrest⟩, rfl⟩
    · simp only [hid, Bool.false_eq_true, if_false, reduceCtorEq, false_iff]
      exact fun h => h.2.1.1

/-- Texts are named if their names are identifiers and differ. -/
theorem identifiers_eq_ok {displays names : List String} :
    identifiers displays = .ok names ↔ names = displays.map identifier ∧ Nameable displays := by
  simp [identifiers, identifiersFrom_eq_ok, Nameable]

/-- The errors that can arise when symbols are named. -/
inductive Error.Naming : Error → Prop where
  | invalidName (display name : String) : Naming (.invalidName display name)
  | duplicateName (name first second : String) : Naming (.duplicateName name first second)

private theorem naming_of_identifiersFrom {owners : List (String × String)} {displays : List String} {e : Error}
    (h : identifiersFrom owners displays = .error e) : e.Naming := by
  induction displays generalizing owners with
  | nil => simp [identifiersFrom] at h
  | cons display displays ih =>
    rw [identifiersFrom] at h
    split at h
    · split at h
      · obtain rfl := Except.error.inj h
        exact .duplicateName _ _ _
      · rename_i hl
        cases hrest : identifiersFrom ((identifier display, display) :: owners) displays with
        | ok names => simp [hrest, Except.map] at h
        | error e' =>
          obtain rfl : e' = e := by simpa [hrest, Except.map] using h
          exact ih hrest
    · obtain rfl := Except.error.inj h
      exact .invalidName _ _

/-! ### Prefixes -/

private theorem isIdentifierPart_of_start {c : Char} (h : isIdentifierStart c = true) : isIdentifierPart c = true := by
  unfold isIdentifierStart at h
  unfold isIdentifierPart Char.isAlphanum
  simp only [Bool.or_eq_true] at h ⊢
  exact h.imp_left Or.inl

/-- A name may stand behind any other part of an identifier. -/
theorem all_isIdentifierPart {name : String} (h : isIdentifier name = true) :
    name.toList.all isIdentifierPart = true := by
  unfold isIdentifier at h
  split at h
  · simp at h
  · rename_i c rest hname
    rw [Bool.and_eq_true] at h
    rw [hname, List.all_cons, isIdentifierPart_of_start h.1, h.2, Bool.and_self]

theorem isIdentifier_append {before name : String} (hbefore : isIdentifier before = true)
    (hname : name.toList.all isIdentifierPart = true) : isIdentifier (before ++ name) = true := by
  unfold isIdentifier at hbefore ⊢
  rw [String.toList_append]
  split at hbefore
  · simp at hbefore
  · rename_i c rest hcons
    rw [Bool.and_eq_true] at hbefore
    rw [hcons, List.cons_append]
    simp only [List.all_append, hbefore.1, hbefore.2, hname, Bool.and_self]

namespace SymbolNames

variable {l : Layout}

/-- The symbols of a layout are named if both kinds can be. -/
theorem exists_ofLayout :
    (∃ symbols, ofLayout l = .ok symbols) ↔ Nameable l.terminals ∧ Nameable l.nonterminals := by
  simp only [ofLayout, bind_eq_ok, identifiers_eq_ok, pure, Except.pure, Except.ok.injEq]
  constructor
  · rintro ⟨_, _, ⟨-, ht⟩, _, ⟨-, hn⟩, -⟩
    exact ⟨ht, hn⟩
  · rintro ⟨ht, hn⟩
    exact ⟨_, _, ⟨rfl, ht⟩, _, ⟨rfl, hn⟩, rfl⟩

theorem naming_of_error {e : Error} (h : ofLayout l = .error e) : e.Naming := by
  simp only [ofLayout, bind, Except.bind, pure, Except.pure] at h
  cases ht : identifiers l.terminals with
  | error e' =>
    obtain rfl : e' = e := by simpa [ht] using h
    exact naming_of_identifiersFrom ht
  | ok terminals =>
    cases hn : identifiers l.nonterminals with
    | error e' =>
      obtain rfl : e' = e := by simpa [ht, hn] using h
      exact naming_of_identifiersFrom hn
    | ok nonterminals => simp [ht, hn] at h

end SymbolNames

end Predictive
