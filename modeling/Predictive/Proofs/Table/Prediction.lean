import Predictive.Proofs.Analysis.Follow
import Predictive.Proofs.Outcome
import Predictive.Proofs.Positions
import Predictive.Table.Compile
import Predictive.Table.Recognizer

/-!
# What a table predicts

A grammar has a table if no terminal is claimed by two alternatives of one nonterminal (`Table.conflicts_eq_nil`).
Its keys are distinct, and the entry of a key is the prediction of the only alternative that claims it
(`Table.get?_build`).

In terms of derivations, an alternative claims what it can begin with, and what follows its left-hand side if it
vanishes. The table of a compiled grammar predicts the alternative itself in the first case and to drop the
nonterminal in the second (`Compiled.predictor_beginsWith`, `Compiled.predictor_vanishes`), and it predicts nothing
else (`Compiled.production_of_predictor`).
-/

namespace Predictive

namespace Table

variable {g : Grammar} {a : Analysis} {table : Table}

/-! ### Conflicts -/

theorem mem_claimants {row : List Candidate} {follow : List Terminal} {t : Terminal} {c : Candidate}
    {p : Prediction} : (c, p) ∈ claimants row follow t ↔ c ∈ row ∧ c.predicts follow t = some p := by
  simp only [claimants, List.mem_filterMap, Option.map_eq_some_iff, Prod.mk.injEq]
  constructor
  · rintro ⟨d, hd, q, hq, rfl, rfl⟩
    exact ⟨hd, hq⟩
  · rintro ⟨hc, hp⟩
    exact ⟨c, hc, p, hp, rfl, rfl⟩

private theorem mem_claims_of_predicts {c : Candidate} {follow : List Terminal} {t : Terminal} {p : Prediction}
    (h : c.predicts follow t = some p) : t ∈ c.claims follow := by
  unfold Candidate.predicts at h
  unfold Candidate.claims
  split at h
  · simp [*]
  · split at h
    · rename_i hn
      simp [hn.1, hn.2]
    · simp at h

private theorem claimants_eq_nil {row : List Candidate} {follow : List Terminal} {t : Terminal}
    (h : t ∉ row.flatMap (·.claims follow)) : claimants row follow t = [] := by
  refine List.eq_nil_iff_forall_not_mem.mpr fun ⟨c, p⟩ hm => h ?_
  obtain ⟨hc, hp⟩ := mem_claimants.mp hm
  exact List.mem_flatMap.mpr ⟨c, hc, mem_claims_of_predicts hp⟩

private theorem rowConflicts_eq_nil {n : Nonterminal} :
    rowConflicts g a n = [] ↔ ∀ t, (claimants (candidates g a n) (a.follow.of n) t).length ≤ 1 := by
  simp only [rowConflicts, List.filterMap_eq_nil_iff, mem_distinct]
  constructor
  · intro h t
    by_cases ht : t ∈ (candidates g a n).flatMap (·.claims (a.follow.of n))
    · have := h t ht
      split at this
      · simp at this
      · omega
    · simp [claimants_eq_nil ht]
  · intro h t _
    have := h t
    rw [if_neg (by omega)]

/-- There is no conflict if no terminal is claimed by two alternatives of one nonterminal. -/
theorem conflicts_eq_nil : conflicts g a = [] ↔ ∀ n < g.nonterminals.length, ∀ t,
    (claimants (candidates g a n) (a.follow.of n) t).length ≤ 1 := by
  simp only [conflicts, List.flatMap_eq_nil_iff, rowConflicts_eq_nil, Grammar.nonterminalIds, List.mem_range]

theorem build_eq_ok : build g a = .ok table ↔
    conflicts g a = [] ∧ table = ⟨g.nonterminalIds.flatMap (rowEntries g a)⟩ := by
  simp only [build]
  split
  · simp [*, eq_comm]
  · simp [*]

/-! ### Entries -/

theorem mem_rowEntries {n : Nonterminal} {key : Key} {p : Prediction} : (key, p) ∈ rowEntries g a n ↔
    key.1 = n ∧ key.2 < g.terminals.length ∧
      (claimants (candidates g a n) (a.follow.of n) key.2).head?.map Prod.snd = some p := by
  obtain ⟨m, t⟩ := key
  simp only [rowEntries, Grammar.terminalIds, List.mem_filterMap, List.mem_range, Option.map_eq_some_iff,
    Prod.mk.injEq]
  constructor
  · rintro ⟨x, hx, y, hy, ⟨rfl, rfl⟩, rfl⟩
    exact ⟨rfl, hx, y, hy, rfl⟩
  · rintro ⟨rfl, ht, y, hy, rfl⟩
    exact ⟨t, ht, y, hy, ⟨rfl, rfl⟩, rfl⟩

/-- The entries of a table are the predictions for the terminals that some alternative claims. -/
theorem mem_entries (h : build g a = .ok table) {key : Key} {p : Prediction} : (key, p) ∈ table.entries ↔
    key.1 < g.nonterminals.length ∧ key.2 < g.terminals.length ∧
      (claimants (candidates g a key.1) (a.follow.of key.1) key.2).head?.map Prod.snd = some p := by
  obtain ⟨-, rfl⟩ := build_eq_ok.mp h
  simp only [List.mem_flatMap, Grammar.nonterminalIds, List.mem_range, mem_rowEntries]
  constructor
  · rintro ⟨n, hn, rfl, ht, hp⟩
    exact ⟨hn, ht, hp⟩
  · rintro ⟨hn, ht, hp⟩
    exact ⟨key.1, hn, rfl, ht, hp⟩

private theorem nodup_map_rowEntries (n : Nonterminal) : ((rowEntries g a n).map Prod.fst).Nodup := by
  have hsub : ((rowEntries g a n).map Prod.fst).Sublist (g.terminalIds.map fun t => (n, t)) := by
    rw [rowEntries, List.map_filterMap]
    induction g.terminalIds with
    | nil => simp
    | cons t l ih =>
      simp only [List.filterMap_cons, List.map_cons]
      split
      · exact ih.cons _
      · rename_i b hb
        obtain ⟨x, hx, rfl⟩ := Option.map_eq_some_iff.mp hb
        obtain ⟨y, -, rfl⟩ := Option.map_eq_some_iff.mp hx
        exact ih.cons_cons _
  refine hsub.nodup ?_
  exact List.nodup_range.map fun s t h => (Prod.mk.inj h).2

/-- The keys of a table are distinct. -/
theorem nodup_keys (h : build g a = .ok table) : table.keys.Nodup := by
  obtain ⟨-, rfl⟩ := build_eq_ok.mp h
  rw [keys, List.map_flatMap, List.nodup_flatMap]
  refine ⟨fun n _ => nodup_map_rowEntries n, ?_⟩
  refine List.nodup_range.imp fun {m n} hmn => ?_
  intro key hm hn
  obtain ⟨⟨k, p⟩, hk, rfl⟩ := List.mem_map.mp hm
  obtain ⟨⟨k', p'⟩, hk', heq⟩ := List.mem_map.mp hn
  have h₁ := (mem_rowEntries.mp hk).1
  have h₂ := (mem_rowEntries.mp hk').1
  simp only at heq h₁ h₂
  exact hmn (by rw [← h₁, ← h₂, heq])

theorem key_lt (h : build g a = .ok table) {key : Key} (hkey : key ∈ table.keys) :
    key.1 < g.nonterminals.length ∧ key.2 < g.terminals.length := by
  obtain ⟨⟨k, p⟩, hm, rfl⟩ := List.mem_map.mp hkey
  obtain ⟨hn, ht, -⟩ := (mem_entries h).mp hm
  exact ⟨hn, ht⟩

/-- The entry of a key is the prediction of the alternative that claims it. -/
theorem get?_build (h : build g a = .ok table) {n : Nonterminal} {t : Terminal} {p : Prediction} :
    table.get? n t = some p ↔ n < g.nonterminals.length ∧ t < g.terminals.length ∧
      (claimants (candidates g a n) (a.follow.of n) t).head?.map Prod.snd = some p := by
  rw [get?, lookup_eq_some_iff_mem (nodup_keys h), mem_entries h]

end Table

/-! ### Predictions and derivations -/

namespace Grammar

variable {g : Grammar}

theorem BeginsWith.terminal_lt (hg : g.WellFormed) {u : List Symbol} {t : Terminal} (hu : g.Markless u)
    (h : g.BeginsWith u t) : t < g.terminals.length := by
  obtain ⟨v, hv⟩ := h
  exact Nat.lt_trans (hv.markless hg hu t (by simp)) hg.eof_lt

theorem Follows.terminal_lt (hg : g.WellFormed) {n : Nonterminal} {t : Terminal} (h : g.Follows n t) :
    t < g.terminals.length := by
  induction h with
  | start => exact hg.eof_lt
  | @next p u v n t hp hr ht =>
    have hm : g.Markless (u ++ .nonterminal n :: v) := hr ▸ hg.markless_rhs hp
    exact ht.terminal_lt hg fun t ht => hm t (by simp [ht])
  | inherit _ _ _ _ ih => exact ih

/-- A sequence vanishes or can begin with some terminal, if that holds of the nonterminals that it can begin with. -/
theorem vanishes_or_beginsWith_of_corners {u : List Symbol}
    (h : ∀ a n b, u = a ++ .nonterminal n :: b → g.Vanishes a →
      g.Vanishes [.nonterminal n] ∨ ∃ t, g.BeginsWith [.nonterminal n] t) :
    g.Vanishes u ∨ ∃ t, g.BeginsWith u t := by
  induction u with
  | nil => exact Or.inl vanishes_nil
  | cons x u ih =>
    have hx : g.Vanishes [x] ∨ ∃ t, g.BeginsWith [x] t := by
      cases x with
      | terminal x => exact Or.inr ⟨x, beginsWith_terminal.mpr rfl⟩
      | nonterminal n => exact h [] n u rfl vanishes_nil
    rcases hx with hx | ⟨t, ht⟩
    · have hu := ih fun a n b hu ha => h (x :: a) n b (by rw [hu, List.cons_append]) (vanishes_cons.mpr ⟨hx, ha⟩)
      rcases hu with hu | ⟨t, ht⟩
      · exact Or.inl (vanishes_cons.mpr ⟨hx, hu⟩)
      · exact Or.inr ⟨t, beginsWith_cons.mpr (Or.inr ⟨hx, ht⟩)⟩
    · exact Or.inr ⟨t, beginsWith_cons.mpr (Or.inl ht)⟩

end Grammar

/-- A nonterminal vanishes or can begin with some terminal, since its left corners do. -/
theorem FirstSets.vanishes_or_beginsWith {g : Grammar} {first : FirstSets} (hg : g.WellFormed)
    (h : FirstSets.compute g = .ok first) (n : Nonterminal) (hn : n < g.nonterminals.length) :
    g.Vanishes [.nonterminal n] ∨ ∃ t, g.BeginsWith [.nonterminal n] t := by
  induction FirstSets.acc_leftCorner hg h n with
  | intro n _ ih =>
    obtain ⟨p, hp, rfl⟩ := hg.productive n hn
    have hrhs : g.Vanishes p.rhs ∨ ∃ t, g.BeginsWith p.rhs t := by
      refine Grammar.vanishes_or_beginsWith_of_corners fun u m v hr hu => ?_
      exact ih m ⟨p, hp, u, v, rfl, hr, hu⟩ (hg.nonterminal_lt p hp m (by simp [hr]))
    rcases hrhs with hv | ⟨t, ht⟩
    · exact Or.inl (Grammar.vanishes_nonterminal.mpr ⟨p, hp, rfl, hv⟩)
    · exact Or.inr ⟨t, Grammar.beginsWith_nonterminal.mpr ⟨p, hp, rfl, ht⟩⟩

theorem Analysis.compute_eq_ok {g : Grammar} {a : Analysis} : compute g = .ok a ↔
    FirstSets.compute g = .ok a.first ∧ a.follow = FollowSets.compute g a.first := by
  obtain ⟨first, follow⟩ := a
  simp only [compute, bind_eq_ok, pure, Except.pure, Except.ok.injEq, Analysis.mk.injEq]
  constructor
  · rintro ⟨_, hfirst, rfl, rfl⟩
    exact ⟨hfirst, rfl⟩
  · rintro ⟨hfirst, rfl⟩
    exact ⟨_, hfirst, rfl, rfl⟩

namespace Compiled

variable {g : Grammar} {c : Compiled}

/-- A compiled grammar has the sets and the table of its grammar. -/
theorem compile_eq_ok : compile g = .ok c ↔ c.grammar = g ∧ FirstSets.compute g = .ok c.analysis.first ∧
    c.analysis.follow = FollowSets.compute g c.analysis.first ∧ Table.build g c.analysis = .ok c.table := by
  obtain ⟨grammar, analysis, table⟩ := c
  simp only [compile, bind_eq_ok, Analysis.compute_eq_ok, pure, Except.pure, Except.ok.injEq, Compiled.mk.injEq]
  constructor
  · rintro ⟨_, ⟨hfirst, hfollow⟩, _, htable, rfl, rfl, rfl⟩
    exact ⟨rfl, hfirst, hfollow, htable⟩
  · rintro ⟨rfl, hfirst, hfollow, htable⟩
    exact ⟨_, ⟨hfirst, hfollow⟩, _, htable, rfl, rfl, rfl⟩

theorem build_of_compile (hc : compile g = .ok c) : Table.build g c.analysis = .ok c.table :=
  (compile_eq_ok.mp hc).2.2.2

private theorem mem_candidates {n : Nonterminal} {d : Candidate} :
    d ∈ Table.candidates g c.analysis n ↔ g.productions[d.id]? = some d.production ∧ d.production.lhs = n ∧
      d.first = c.analysis.first.ofSequence d.production.rhs := by
  obtain ⟨id, p, f⟩ := d
  simp only [Table.candidates, List.mem_map, Prod.exists, Candidate.mk.injEq]
  constructor
  · rintro ⟨i, q, hm, rfl, rfl, rfl⟩
    exact ⟨(g.mem_productionsOf.mp hm).1, (g.mem_productionsOf.mp hm).2, rfl⟩
  · rintro ⟨hp, hn, rfl⟩
    exact ⟨id, p, g.mem_productionsOf.mpr ⟨hp, hn⟩, rfl, rfl, rfl⟩

section Predictor

variable (hg : g.WellFormed) (hc : compile g = .ok c)

include hc

/-- The only alternative that claims a terminal decides the prediction. -/
private theorem predictor_of_predicts {d : Candidate} (hd : d ∈ Table.candidates g c.analysis d.production.lhs)
    {t : Terminal} (ht : t < g.terminals.length) (hlt : d.production.lhs < g.nonterminals.length) {p : Prediction}
    (hp : d.predicts (c.analysis.follow.of d.production.lhs) t = some p) :
    c.table.predictor g d.production.lhs t = some (p.payload g) := by
  have hb := build_of_compile hc
  have hone := Table.conflicts_eq_nil.mp (Table.build_eq_ok.mp hb).1 d.production.lhs hlt t
  have hmem := Table.mem_claimants.mpr ⟨hd, hp⟩
  have hhead : (Table.claimants (Table.candidates g c.analysis d.production.lhs)
      (c.analysis.follow.of d.production.lhs) t).head? = some (d, p) := by
    generalize Table.claimants _ _ t = l at hone hmem
    match l with
    | [x] => simp [List.mem_singleton.mp hmem]
  have hget := (Table.get?_build hb).mpr ⟨hlt, ht, by rw [hhead]; rfl⟩
  simp [Table.predictor, hget]

include hg

/-- An alternative is predicted for every terminal that it can begin with. -/
theorem predictor_beginsWith {p : Production} (hp : p ∈ g.productions) {t : Terminal} (ht : g.BeginsWith p.rhs t) :
    c.table.predictor g p.lhs t = some p.rhs := by
  obtain ⟨-, hf, -, -⟩ := compile_eq_ok.mp hc
  obtain ⟨id, hid⟩ := List.mem_iff_getElem?.mp hp
  let d : Candidate := ⟨id, p, c.analysis.first.ofSequence p.rhs⟩
  have hd : d ∈ Table.candidates g c.analysis p.lhs := mem_candidates.mpr ⟨hid, rfl, rfl⟩
  have hpred : d.predicts (c.analysis.follow.of p.lhs) t = some (.expand id) := by
    rw [Candidate.predicts, if_pos ((FirstSets.mem_ofSequence hg hf).mpr ht)]
  have hlt := ht.terminal_lt hg (hg.markless_rhs hp)
  have := predictor_of_predicts hc hd hlt (hg.lhs_lt p hp) hpred
  simpa [Prediction.payload, Grammar.rhsOf, hid] using this

/-- Where an alternative vanishes and cannot begin with what follows, the nonterminal is dropped. -/
theorem predictor_vanishes {p : Production} (hp : p ∈ g.productions) {t : Terminal} (hv : g.Vanishes p.rhs)
    (ht : g.Follows p.lhs t) (hnot : ¬ g.BeginsWith p.rhs t) : c.table.predictor g p.lhs t = some [] := by
  obtain ⟨-, hf, hfo, -⟩ := compile_eq_ok.mp hc
  obtain ⟨id, hid⟩ := List.mem_iff_getElem?.mp hp
  let d : Candidate := ⟨id, p, c.analysis.first.ofSequence p.rhs⟩
  have hd : d ∈ Table.candidates g c.analysis p.lhs := mem_candidates.mpr ⟨hid, rfl, rfl⟩
  have hpred : d.predicts (c.analysis.follow.of p.lhs) t = some .vanish := by
    rw [Candidate.predicts, if_neg (fun h => hnot ((FirstSets.mem_ofSequence hg hf).mp h)), if_pos]
    exact ⟨(FirstSets.nullable_ofSequence hg hf).mpr hv, hfo ▸ (FollowSets.mem_of hg hf).mpr ht⟩
  exact predictor_of_predicts hc hd (ht.terminal_lt hg) (hg.lhs_lt p hp) hpred

/-- A table predicts an alternative of the nonterminal, or to drop it where it vanishes. -/
theorem production_of_predictor {n : Nonterminal} {t : Terminal} {symbols : List Symbol}
    (h : c.table.predictor g n t = some symbols) :
    ∃ p ∈ g.productions, p.lhs = n ∧ (symbols = p.rhs ∨ symbols = [] ∧ g.Vanishes p.rhs) := by
  obtain ⟨-, hf, -, hb⟩ := compile_eq_ok.mp hc
  obtain ⟨q, hq, rfl⟩ := Option.map_eq_some_iff.mp h
  obtain ⟨-, -, hhead⟩ := (Table.get?_build hb).mp hq
  obtain ⟨⟨d, q⟩, hd, rfl⟩ := Option.map_eq_some_iff.mp hhead
  obtain ⟨hmem, hpred⟩ := Table.mem_claimants.mp (List.mem_of_mem_head? hd)
  obtain ⟨hid, hlhs, hfirst⟩ := mem_candidates.mp hmem
  refine ⟨d.production, List.mem_of_getElem? hid, hlhs, ?_⟩
  unfold Candidate.predicts at hpred
  split at hpred
  · obtain rfl := Option.some.inj hpred
    exact Or.inl (by simp [Prediction.payload, Grammar.rhsOf, hid])
  · split at hpred
    · rename_i hn
      obtain rfl := Option.some.inj hpred
      exact Or.inr ⟨rfl, (FirstSets.nullable_ofSequence hg hf).mp (hfirst ▸ hn.1)⟩
    · simp at hpred

/-- Something is predicted for a nonterminal that something follows. -/
theorem exists_predictor {n : Nonterminal} (hn : n < g.nonterminals.length) {t : Terminal} (ht : g.Follows n t) :
    ∃ t symbols, c.table.predictor g n t = some symbols := by
  rcases FirstSets.vanishes_or_beginsWith hg (compile_eq_ok.mp hc).2.1 n hn with hv | ⟨x, hx⟩
  · obtain ⟨p, hp, rfl, hpv⟩ := Grammar.vanishes_nonterminal.mp hv
    by_cases hbegins : g.BeginsWith p.rhs t
    · exact ⟨t, _, predictor_beginsWith hg hc hp hbegins⟩
    · exact ⟨t, _, predictor_vanishes hg hc hp hpv ht hbegins⟩
  · obtain ⟨p, hp, rfl, hbegins⟩ := Grammar.beginsWith_nonterminal.mp hx
    exact ⟨x, _, predictor_beginsWith hg hc hp hbegins⟩

theorem exists_predictor_start : ∃ t symbols, c.table.predictor g g.start t = some symbols :=
  exists_predictor hg hc hg.start_lt .start

end Predictor

end Compiled

end Predictive
