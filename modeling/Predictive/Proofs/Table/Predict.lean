import Predictive.Proofs.Table.Disjoint

/-!
# Tables and PREDICT sets

PREDICT of a production is FIRST of its right-hand side, with FOLLOW of its left-hand side where the right-hand side
vanishes (`Analysis.Predicts`). The table of a grammar is told by these sets alone. There is one unless two productions
of a nonterminal have a terminal in common (`Table.Contested`); its entry for a key is then the production that has the
terminal in PREDICT, to be expanded where the terminal is in FIRST and to be dropped otherwise. Where there is none, each
contested key is reported once, with all productions that contest it (`Table.built_by_predict_sets`).
-/

namespace Predictive

/-! ### PREDICT sets -/

namespace Analysis

/-- PREDICT of the production has the terminal. -/
def Predicts (a : Analysis) (p : Production) (t : Terminal) : Prop :=
  t ∈ (a.first.ofSequence p.rhs).terminals ∨
    (a.first.ofSequence p.rhs).nullable = true ∧ t ∈ a.follow.of p.lhs

instance (a : Analysis) (p : Production) (t : Terminal) : Decidable (a.Predicts p t) :=
  inferInstanceAs (Decidable (_ ∨ _))

/-- PREDICT sets have terminals of the grammar only. -/
theorem Predicts.terminal_lt {g : Grammar} {a : Analysis} (hg : g.WellFormed) (ha : compute g = .ok a)
    {p : Production} (hp : p ∈ g.productions) {t : Terminal} (h : a.Predicts p t) : t < g.terminals.length := by
  obtain ⟨hfirst, hfollow⟩ := compute_eq_ok.mp ha
  rcases h with h | ⟨-, h⟩
  · exact ((FirstSets.mem_ofSequence hg hfirst).mp h).terminal_lt hg (hg.markless_rhs hp)
  · rw [hfollow] at h
    exact ((FollowSets.mem_of hg hfirst).mp h).terminal_lt hg

end Analysis

namespace Table

variable {g : Grammar} {a : Analysis} {n : Nonterminal} {t : Terminal}

/-- Two productions of the nonterminal have the terminal in PREDICT. -/
def Contested (g : Grammar) (a : Analysis) (n : Nonterminal) (t : Terminal) : Prop :=
  ∃ q ∈ g.productionsOf n, ∃ r ∈ g.productionsOf n, q.1 ≠ r.1 ∧ a.Predicts q.2 t ∧ a.Predicts r.2 t

/-- The productions of a nonterminal that have the terminal in PREDICT, in order. -/
def predicting (g : Grammar) (a : Analysis) (n : Nonterminal) (t : Terminal) : List (ProductionId × Production) :=
  (g.productionsOf n).filter fun q => a.Predicts q.2 t

private def candidate (a : Analysis) (q : ProductionId × Production) : Candidate :=
  ⟨q.1, q.2, a.first.ofSequence q.2.rhs⟩

private theorem mem_claims {q : ProductionId × Production} (hq : q ∈ g.productionsOf n) :
    t ∈ (candidate a q).claims (a.follow.of n) ↔ a.Predicts q.2 t := by
  obtain ⟨-, rfl⟩ := g.mem_productionsOf.mp hq
  unfold candidate Candidate.claims Analysis.Predicts
  by_cases hnull : (a.first.ofSequence q.2.rhs).nullable = true
  · simp [hnull]
  · simp [hnull]

private theorem exists_predicts {q : ProductionId × Production} (hq : q ∈ g.productionsOf n) :
    (∃ p, (candidate a q).predicts (a.follow.of n) t = some p) ↔ a.Predicts q.2 t := by
  rw [← Option.isSome_iff_exists, isSome_predicts, decide_eq_true_eq, mem_claims hq]

private theorem map_fst_claimants_eq :
    (claimants (candidates g a n) (a.follow.of n) t).map Prod.fst = (predicting g a n t).map (candidate a) := by
  have hrow : candidates g a n = (g.productionsOf n).map (candidate a) := rfl
  rw [map_fst_claimants, hrow, List.filter_map, predicting]
  congr 1
  refine List.filter_congr fun q hq => ?_
  simp only [Function.comp_apply, mem_claims hq]

private theorem length_claimants :
    (claimants (candidates g a n) (a.follow.of n) t).length = (predicting g a n t).length := by
  rw [← List.length_map (f := Prod.fst), map_fst_claimants_eq, List.length_map]

private theorem eq_of_fst_eq {q r : ProductionId × Production} (hq : q ∈ g.productionsOf n)
    (hr : r ∈ g.productionsOf n) (h : q.1 = r.1) : q = r := by
  have hq' := (g.mem_productionsOf.mp hq).1
  have hr' := (g.mem_productionsOf.mp hr).1
  rw [h, hr', Option.some.injEq] at hq'
  exact Prod.ext h hq'.symm

private theorem length_predicting_le_one : (predicting g a n t).length ≤ 1 ↔ ¬ Contested g a n t := by
  have hnodup : (g.productionsOf n).Nodup := .of_map _ (Grammar.nodup_productionsOf n)
  rw [predicting, length_filter_le_one hnodup]
  simp only [decide_eq_true_eq]
  constructor
  · rintro h ⟨q, hq, r, hr, hne, hqt, hrt⟩
    exact hne (congrArg Prod.fst (h q hq r hr hqt hrt))
  · intro h q hq r hr hqt hrt
    refine Classical.byContradiction fun hne => h ⟨q, hq, r, hr, ?_, hqt, hrt⟩
    exact fun heq => hne (eq_of_fst_eq hq hr heq)

/-- There is a table unless a key is contested. -/
theorem conflicts_eq_nil_iff (hg : g.WellFormed) : conflicts g a = [] ↔ ¬ ∃ n t, Contested g a n t := by
  simp only [conflicts_eq_nil, length_claimants, length_predicting_le_one, not_exists]
  constructor
  · intro h n t hnt
    obtain ⟨q, hq, -⟩ := id hnt
    obtain ⟨hid, rfl⟩ := g.mem_productionsOf.mp hq
    exact h _ (hg.lhs_lt _ (List.mem_of_getElem? hid)) t hnt
  · exact fun h n _ t => h n t

/-! ### Entries -/

section Entries

variable {table : Table} (hg : g.WellFormed) (ha : Analysis.compute g = .ok a) (hb : build g a = .ok table)

include hg ha hb

private theorem get?_eq_some {p : Prediction} : table.get? n t = some p ↔
    ∃ q ∈ g.productionsOf n, (candidate a q).predicts (a.follow.of n) t = some p := by
  have hbounds : ∀ q ∈ g.productionsOf n, (candidate a q).predicts (a.follow.of n) t = some p →
      n < g.nonterminals.length ∧ t < g.terminals.length := by
    intro q hq hp
    have hpredicts := (exists_predicts hq).mp ⟨p, hp⟩
    obtain ⟨hid, rfl⟩ := g.mem_productionsOf.mp hq
    have hmem := List.mem_of_getElem? hid
    exact ⟨hg.lhs_lt _ hmem, hpredicts.terminal_lt hg ha hmem⟩
  rw [get?_build hb]
  constructor
  · rintro ⟨-, -, hhead⟩
    obtain ⟨⟨c, p⟩, hc, rfl⟩ := Option.map_eq_some_iff.mp hhead
    obtain ⟨hrow, hp⟩ := mem_claimants.mp (List.mem_of_mem_head? hc)
    obtain ⟨q, hq, rfl⟩ := List.mem_map.mp hrow
    exact ⟨q, hq, hp⟩
  · rintro ⟨q, hq, hp⟩
    obtain ⟨hn, ht⟩ := hbounds q hq hp
    have hone := conflicts_eq_nil.mp (build_eq_ok.mp hb).1 n hn t
    have hrow : candidate a q ∈ candidates g a n := List.mem_map.mpr ⟨q, hq, rfl⟩
    have hmem := mem_claimants.mpr ⟨hrow, hp⟩
    refine ⟨hn, ht, ?_⟩
    generalize claimants (candidates g a n) (a.follow.of n) t = l at hone hmem
    match l, hone with
    | [x], _ => rw [← List.mem_singleton.mp hmem]; rfl

/-- A production is expanded exactly for the terminals of its FIRST set. -/
theorem get?_eq_expand {id : ProductionId} : table.get? n t = some (.expand id) ↔
    ∃ p, (id, p) ∈ g.productionsOf n ∧ t ∈ (a.first.ofSequence p.rhs).terminals := by
  rw [get?_eq_some hg ha hb]
  constructor
  · rintro ⟨⟨i, p⟩, hq, hp⟩
    unfold candidate Candidate.predicts at hp
    split at hp
    · rename_i hfirst
      obtain rfl := Prediction.expand.inj (Option.some.inj hp)
      exact ⟨p, hq, hfirst⟩
    · split at hp <;> simp at hp
  · rintro ⟨p, hq, hfirst⟩
    exact ⟨(id, p), hq, if_pos hfirst⟩

/-- A nonterminal is dropped exactly for what follows it, if one of its productions vanishes and none has the terminal in
FIRST. -/
theorem get?_eq_vanish : table.get? n t = some .vanish ↔ t ∈ a.follow.of n ∧
    (∃ q ∈ g.productionsOf n, (a.first.ofSequence q.2.rhs).nullable = true) ∧
    ∀ q ∈ g.productionsOf n, t ∉ (a.first.ofSequence q.2.rhs).terminals := by
  rw [get?_eq_some hg ha hb]
  constructor
  · rintro ⟨q, hq, hp⟩
    unfold candidate Candidate.predicts at hp
    split at hp
    · simp at hp
    · rename_i hfirst
      split at hp
      · rename_i hnull
        refine ⟨hnull.2, ⟨q, hq, hnull.1⟩, fun r hr hrt => ?_⟩
        -- otherwise two productions have the terminal in PREDICT
        obtain ⟨-, rfl⟩ := g.mem_productionsOf.mp hq
        refine (conflicts_eq_nil_iff hg).mp (build_eq_ok.mp hb).1 ⟨_, t, q, hq, r, hr, ?_, Or.inr hnull, Or.inl hrt⟩
        intro heq
        rw [eq_of_fst_eq hq hr heq] at hfirst
        exact hfirst hrt
      · simp at hp
  · rintro ⟨hfollow, ⟨q, hq, hnull⟩, hfirst⟩
    refine ⟨q, hq, ?_⟩
    unfold candidate Candidate.predicts
    rw [if_neg (hfirst q hq), if_pos ⟨hnull, hfollow⟩]

/-- A key without an entry is one that no production has in PREDICT. -/
theorem get?_eq_none : table.get? n t = none ↔ ∀ q ∈ g.productionsOf n, ¬ a.Predicts q.2 t := by
  have hsome : table.get? n t ≠ none ↔ ∃ q ∈ g.productionsOf n, a.Predicts q.2 t := by
    rw [Option.ne_none_iff_exists']
    simp only [get?_eq_some hg ha hb]
    constructor
    · rintro ⟨p, q, hq, hp⟩
      exact ⟨q, hq, (exists_predicts hq).mp ⟨p, hp⟩⟩
    · rintro ⟨q, hq, hpredicts⟩
      obtain ⟨p, hp⟩ := (exists_predicts hq).mpr hpredicts
      exact ⟨p, q, hq, hp⟩
  constructor
  · intro h q hq hpredicts
    exact hsome.mpr ⟨q, hq, hpredicts⟩ h
  · intro h
    refine Classical.byContradiction fun hne => ?_
    obtain ⟨q, hq, hpredicts⟩ := hsome.mp hne
    exact h q hq hpredicts

end Entries

/-! ### Conflicts -/

/-- The conflict of a contested key. -/
def conflictAt (g : Grammar) (a : Analysis) (key : Key) : Issue :=
  .conflict (g.nonterminalName key.1) (g.terminalName key.2)
    ((predicting g a key.1 key.2).map fun q => g.showProduction q.2)

/-- The contested keys of a row, in the order of their conflicts. -/
private def contestedRow (g : Grammar) (a : Analysis) (n : Nonterminal) : List Key :=
  ((distinct ((candidates g a n).flatMap (·.claims (a.follow.of n)))).filter fun t =>
    1 < (predicting g a n t).length).map fun t => (n, t)

private theorem rowConflicts_eq_map (n : Nonterminal) :
    rowConflicts g a n = (contestedRow g a n).map (conflictAt g a) := by
  have halternatives : ∀ t, (claimants (candidates g a n) (a.follow.of n) t).map
      (fun x => g.showProduction x.1.production) = (predicting g a n t).map fun q => g.showProduction q.2 := by
    intro t
    calc (claimants (candidates g a n) (a.follow.of n) t).map (fun x => g.showProduction x.1.production)
        = ((claimants (candidates g a n) (a.follow.of n) t).map Prod.fst).map (g.showProduction ·.production) := by
          rw [List.map_map]
          rfl
      _ = (predicting g a n t).map fun q => g.showProduction q.2 := by
          rw [map_fst_claimants_eq, List.map_map]
          rfl
  simp only [rowConflicts, contestedRow, length_claimants]
  generalize distinct ((candidates g a n).flatMap (·.claims (a.follow.of n))) = l
  induction l with
  | nil => rfl
  | cons t l ih =>
    rw [List.filterMap_cons, List.filter_cons]
    by_cases hlen : 1 < (predicting g a n t).length
    · simp only [hlen, if_true, decide_true, List.map_cons, ih, conflictAt]
      rw [← halternatives]
    · simpa [hlen] using ih

private theorem mem_contestedRow {key : Key} : key ∈ contestedRow g a n ↔ key.1 = n ∧ Contested g a key.1 key.2 := by
  obtain ⟨m, t⟩ := key
  have hlen : ∀ t, 1 < (predicting g a n t).length ↔ Contested g a n t := by
    intro t
    rw [← Nat.not_le, length_predicting_le_one, Classical.not_not]
  simp only [contestedRow, List.mem_map, List.mem_filter, mem_distinct, decide_eq_true_eq, hlen, Prod.mk.injEq]
  constructor
  · rintro ⟨t, ⟨-, h⟩, rfl, rfl⟩
    exact ⟨rfl, h⟩
  · rintro ⟨rfl, h⟩
    obtain ⟨q, hq, -, -, -, hqt, -⟩ := id h
    exact ⟨t, ⟨List.mem_flatMap.mpr ⟨candidate a q, List.mem_map.mpr ⟨q, hq, rfl⟩, (mem_claims hq).mpr hqt⟩, h⟩,
      rfl, rfl⟩

private theorem nodup_contested : (g.nonterminalIds.flatMap (contestedRow g a)).Nodup := by
  rw [List.nodup_flatMap]
  constructor
  · intro n _
    exact ((nodup_distinct _).filter _).map fun s t h => (Prod.mk.inj h).2
  · refine List.nodup_range.imp fun {m n} hmn key hm hn => ?_
    exact hmn ((mem_contestedRow.mp hm).1.symm.trans (mem_contestedRow.mp hn).1)

/-- The conflicts of a grammar are those of its contested keys, each of which is reported once. -/
theorem exists_contested_keys (hg : g.WellFormed) : ∃ keys : List Key, keys.Nodup ∧
    (∀ n t, (n, t) ∈ keys ↔ Contested g a n t) ∧ conflicts g a = keys.map (conflictAt g a) := by
  refine ⟨g.nonterminalIds.flatMap (contestedRow g a), nodup_contested, ?_, ?_⟩
  · intro n t
    simp only [List.mem_flatMap, mem_contestedRow, Grammar.nonterminalIds, List.mem_range]
    constructor
    · rintro ⟨m, -, -, h⟩
      exact h
    · intro h
      obtain ⟨q, hq, -⟩ := id h
      obtain ⟨hid, rfl⟩ := g.mem_productionsOf.mp hq
      exact ⟨_, hg.lhs_lt _ (List.mem_of_getElem? hid), rfl, h⟩
  · rw [conflicts, List.map_flatMap]
    exact List.flatMap_congr fun n _ => rowConflicts_eq_map n

/-- A grammar has a table exactly if no key is contested. The table expands a production for the terminals of its FIRST
set, drops a nonterminal for what follows it where it vanishes and none of its productions begins so, and has no other
entries. Otherwise there is one conflict for each contested key, with all productions that have the terminal in PREDICT
in their order, and nothing else is reported. -/
theorem built_by_predict_sets {d : Draft} (hd : d.build = .ok g) (ha : Analysis.compute g = .ok a) :
    ((∃ table, build g a = .ok table) ↔ ¬ ∃ n t, Contested g a n t) ∧
    (∀ table, build g a = .ok table → ∀ n t,
      (∀ id, table.get? n t = some (.expand id) ↔
        ∃ p, (id, p) ∈ g.productionsOf n ∧ t ∈ (a.first.ofSequence p.rhs).terminals) ∧
      (table.get? n t = some .vanish ↔ t ∈ a.follow.of n ∧
        (∃ q ∈ g.productionsOf n, (a.first.ofSequence q.2.rhs).nullable = true) ∧
        ∀ q ∈ g.productionsOf n, t ∉ (a.first.ofSequence q.2.rhs).terminals) ∧
      (table.get? n t = none ↔ ∀ q ∈ g.productionsOf n, ¬ a.Predicts q.2 t)) ∧
    ∀ issues, build g a = .error issues → ∃ keys : List Key, keys.Nodup ∧
      (∀ n t, (n, t) ∈ keys ↔ Contested g a n t) ∧
      issues = keys.map fun (n, t) => .conflict (g.nonterminalName n) (g.terminalName t)
        (((g.productionsOf n).filter fun q => a.Predicts q.2 t).map fun q => g.showProduction q.2) := by
  obtain ⟨hlegal, rfl⟩ := Draft.build_eq_ok.mp hd
  have hg := hlegal.wellFormed
  refine ⟨?_, ?_, ?_⟩
  · rw [← conflicts_eq_nil_iff hg]
    simp [build_eq_ok]
  · intro table hb n t
    exact ⟨fun id => get?_eq_expand hg ha hb, get?_eq_vanish hg ha hb, get?_eq_none hg ha hb⟩
  · intro issues hb
    have hissues : issues = conflicts d.grammar a := by
      simp only [build] at hb
      split at hb
      · simp at hb
      · exact (Except.error.inj hb).symm
    obtain ⟨keys, hnodup, hkeys, hconflicts⟩ := exists_contested_keys (a := a) hg
    exact ⟨keys, hnodup, hkeys, hissues.trans hconflicts⟩

end Table

/-! ### Alternatives that begin alike -/

/-- A call with or without arguments, which are given twice by mistake. -/
def Draft.call : Draft where
  start := "call"
  terminals := ["name", "("]
  rules := [("call", ["name", "arguments"]), ("call", ["name"]), ("arguments", ["("]), ("arguments", []),
    ("arguments", [])]

def Analysis.call : Analysis := ⟨⟨[⟨[0], false⟩, ⟨[1], true⟩]⟩, ⟨[[2], [2]]⟩⟩

/-- Its alternatives that begin alike are in conflict, and so are those that are the same. Where nothing is contested,
as with two optional letters, a letter is dropped for what follows it. -/
theorem Table.built_by_predict_sets_call :
    (build Draft.call.grammar Analysis.call = .error
        [.conflict "call" "name" ["call -> name arguments", "call -> name"],
          .conflict "arguments" "$" ["arguments -> ε", "arguments -> ε"]] ∧
      ∃ keys : List Key, keys.length = 2 ∧ keys.Nodup ∧
        ∀ n t, (n, t) ∈ keys ↔ Contested Draft.call.grammar Analysis.call n t) ∧
    Compiled.optionalPair.table.get? 1 2 = some .vanish := by
  have hd : Draft.call.build = .ok Draft.call.grammar := by decide +kernel
  have ha : Analysis.compute Draft.call.grammar = .ok Analysis.call := by decide +kernel
  have hb : build Draft.call.grammar Analysis.call = .error
      [.conflict "call" "name" ["call -> name arguments", "call -> name"],
        .conflict "arguments" "$" ["arguments -> ε", "arguments -> ε"]] := by decide +kernel
  obtain ⟨-, -, herror⟩ := built_by_predict_sets hd ha
  obtain ⟨keys, hnodup, hkeys, hissues⟩ := herror _ hb
  have hlength : keys.length = 2 := by simpa using (congrArg List.length hissues).symm
  have ha' : Analysis.compute Draft.optionalPair.grammar = .ok Compiled.optionalPair.analysis := by decide +kernel
  have hb' : build Draft.optionalPair.grammar Compiled.optionalPair.analysis = .ok Compiled.optionalPair.table := by
    decide +kernel
  obtain ⟨-, hentries, -⟩ := built_by_predict_sets Draft.build_optionalPair ha'
  obtain ⟨-, hvanish, -⟩ := hentries _ hb' 1 2
  refine ⟨⟨hb, keys, hlength, hnodup, hkeys⟩, hvanish.mpr ?_⟩
  decide +kernel

end Predictive
