import Predictive.Proofs.Table.Recognition

/-!
# Nullable rows of a table

An alternative of a nonterminal is never held against itself: it stands once among those that claim a terminal, even
where the terminal is both in its FIRST set and in the FOLLOW set of the nonterminal, and a table fails only if two
different alternatives claim one terminal (`Table.isOk_build`).

Nothing is lost by that. Suppose that a nonterminal vanishes and can begin with a terminal that also follows it. If this
is due to two alternatives, they are in conflict. If one alternative both vanishes and begins with the terminal, then so
does one of the nonterminals in it, behind others that vanish, and the terminal follows that one too. It is a left corner
of the first nonterminal, and left corners cannot be followed for ever; so a conflict shows up further down
(`Compiled.not_follows_of_beginsWith`).
-/

namespace Predictive

/-! ### Alternatives that claim a terminal -/

/-- Every alternative of a nonterminal has a number of its own. -/
theorem Grammar.nodup_productionsOf {g : Grammar} (n : Nonterminal) : ((g.productionsOf n).map Prod.fst).Nodup :=
  (Grammar.pairwise_productionsOf n).imp Nat.ne_of_lt

namespace Table

variable {g : Grammar} {a : Analysis}

/-- A candidate predicts something for the terminals that it claims. -/
theorem isSome_predicts (c : Candidate) (follow : List Terminal) (t : Terminal) :
    (c.predicts follow t).isSome = decide (t ∈ c.claims follow) := by
  unfold Candidate.predicts Candidate.claims
  by_cases hfirst : t ∈ c.first.terminals
  · simp [hfirst]
  · by_cases hnull : c.first.nullable = true
    · by_cases hfollow : t ∈ follow <;> simp [hfirst, hnull, hfollow]
    · simp [hfirst, hnull]

/-- The candidates that claim a terminal are found in the order of the row. -/
theorem map_fst_claimants (row : List Candidate) (follow : List Terminal) (t : Terminal) :
    (claimants row follow t).map Prod.fst = row.filter fun c => t ∈ c.claims follow := by
  induction row with
  | nil => rfl
  | cons c row ih =>
    have hc := isSome_predicts c follow t
    unfold claimants at ih ⊢
    rw [List.filterMap_cons, List.filter_cons, ← hc]
    cases c.predicts follow t with
    | none => simpa using ih
    | some p => simpa using ih

private theorem nodup_ids (n : Nonterminal) : ((candidates g a n).map Candidate.id).Nodup := by
  have hids : (candidates g a n).map Candidate.id = (g.productionsOf n).map Prod.fst := by
    rw [candidates, List.map_map]
    rfl
  rw [hids]
  exact Grammar.nodup_productionsOf n

/-- An alternative stands once among those that claim a terminal. -/
theorem nodup_claimants (n : Nonterminal) (t : Terminal) :
    ((claimants (candidates g a n) (a.follow.of n) t).map fun x => x.1.id).Nodup := by
  have hmap : (claimants (candidates g a n) (a.follow.of n) t).map (fun x => x.1.id) =
      ((candidates g a n).filter fun c => t ∈ c.claims (a.follow.of n)).map Candidate.id := by
    rw [← map_fst_claimants, List.map_map]
    rfl
  rw [hmap]
  exact (nodup_ids n).sublist (List.filter_sublist.map Candidate.id)

/-- No more than one member passes a test if any two that do are the same. -/
theorem length_filter_le_one {α : Type} {l : List α} (hl : l.Nodup) (p : α → Bool) :
    (l.filter p).length ≤ 1 ↔ ∀ x ∈ l, ∀ y ∈ l, p x = true → p y = true → x = y := by
  have hmem : ∀ x, x ∈ l.filter p ↔ x ∈ l ∧ p x = true := fun x => List.mem_filter
  have hnodup : (l.filter p).Nodup := hl.filter p
  constructor
  · intro hle x hx y hy hpx hpy
    have hx' := (hmem x).mpr ⟨hx, hpx⟩
    have hy' := (hmem y).mpr ⟨hy, hpy⟩
    match hfilter : l.filter p, hle with
    | [], _ => simp [hfilter] at hx'
    | [z], _ =>
      rw [hfilter, List.mem_singleton] at hx' hy'
      rw [hx', hy']
  · intro hall
    match hfilter : l.filter p with
    | [] => simp
    | [z] => simp
    | x :: y :: rest =>
      have hx := (hmem x).mp (by simp [hfilter])
      have hy := (hmem y).mp (by simp [hfilter])
      have heq := hall x hx.1 y hy.1 hx.2 hy.2
      simp [hfilter, heq] at hnodup

/-- There is a table unless two different alternatives of a nonterminal claim one terminal. -/
theorem isOk_build : (∃ table, build g a = .ok table) ↔ ∀ n < g.nonterminals.length,
    ∀ c ∈ candidates g a n, ∀ c' ∈ candidates g a n, ∀ t,
      t ∈ c.claims (a.follow.of n) → t ∈ c'.claims (a.follow.of n) → c = c' := by
  have hbuild : (∃ table, build g a = .ok table) ↔ conflicts g a = [] := by simp [build_eq_ok]
  have hrow : ∀ n t, (claimants (candidates g a n) (a.follow.of n) t).length ≤ 1 ↔
      ∀ c ∈ candidates g a n, ∀ c' ∈ candidates g a n,
        t ∈ c.claims (a.follow.of n) → t ∈ c'.claims (a.follow.of n) → c = c' := by
    intro n t
    rw [← List.length_map (f := Prod.fst), map_fst_claimants, length_filter_le_one (List.Nodup.of_map _ (nodup_ids n))]
    simp only [decide_eq_true_eq]
  simp only [hbuild, conflicts_eq_nil, hrow]
  constructor
  · intro h n hn c hc c' hc' t
    exact h n hn t c hc c' hc'
  · intro h n hn t c hc c' hc'
    exact h n hn c hc c' hc' t

end Table

/-! ### FIRST and FOLLOW -/

namespace Grammar

/-- A sequence that vanishes and can begin with a terminal has a nonterminal that does, behind others that vanish. -/
theorem exists_corner_of_vanishes_beginsWith {g : Grammar} {u : List Symbol} {t : Terminal} (hv : g.Vanishes u)
    (ht : g.BeginsWith u t) : ∃ a n b, u = a ++ .nonterminal n :: b ∧ g.Vanishes a ∧
      g.Vanishes [.nonterminal n] ∧ g.BeginsWith [.nonterminal n] t ∧ g.Vanishes b := by
  induction u with
  | nil => exact absurd ht not_beginsWith_nil
  | cons x u ih =>
    obtain ⟨hx, hu⟩ := vanishes_cons.mp hv
    rcases beginsWith_cons.mp ht with hxt | ⟨-, hut⟩
    · cases x with
      | terminal y => exact absurd hx not_vanishes_terminal
      | nonterminal n => exact ⟨[], n, u, rfl, vanishes_nil, hx, hxt, hu⟩
    · obtain ⟨a, n, b, rfl, ha, hn, hnt, hb⟩ := ih hu hut
      exact ⟨x :: a, n, b, rfl, vanishes_cons.mpr ⟨hx, ha⟩, hn, hnt, hb⟩

end Grammar

namespace Compiled

variable {g : Grammar} {c : Compiled}

/-- No terminal that a vanishing nonterminal can begin with follows it. -/
theorem not_follows_of_beginsWith (hg : g.WellFormed) (hc : compile g = .ok c) {n : Nonterminal} {t : Terminal}
    (hv : g.Vanishes [.nonterminal n]) (ht : g.BeginsWith [.nonterminal n] t) : ¬ g.Follows n t := by
  induction FirstSets.acc_leftCorner hg (compile_eq_ok.mp hc).2.1 n with
  | intro n _ ih =>
    intro hfollow
    obtain ⟨q, hq, hqn, hqt⟩ := Grammar.beginsWith_nonterminal.mp ht
    obtain ⟨p, hp, rfl, hpv⟩ := Grammar.vanishes_nonterminal.mp hv
    by_cases hpt : g.BeginsWith p.rhs t
    · -- one alternative does both, so a left corner of its left-hand side does
      obtain ⟨u, m, v, hr, hu, hm, hmt, hvv⟩ := Grammar.exists_corner_of_vanishes_beginsWith hpv hpt
      have hcorner : g.LeftCorner p.lhs m := ⟨p, hp, u, v, rfl, hr, hu⟩
      exact ih m hcorner hm hmt (.inherit hp hr hvv hfollow)
    · -- two alternatives are predicted for one terminal
      have hexpand := predictor_beginsWith hg hc hq hqt
      have hdrop := predictor_vanishes hg hc hp hpv hfollow hpt
      rw [hqn, hdrop, Option.some.injEq] at hexpand
      rw [← hexpand] at hqt
      exact Grammar.not_beginsWith_nil hqt

end Compiled

/-- An alternative is held only against others, and that hides no defect: where a table exists, no terminal is in FIRST
and in FOLLOW of a nonterminal that vanishes, and no alternative claims a terminal in both ways. -/
theorem Table.first_disjoint_follow {d : Draft} {g : Grammar} {a : Analysis} {table : Table} (hb : d.build = .ok g)
    (ha : Analysis.compute g = .ok a) (ht : Table.build g a = .ok table) :
    (∀ (g : Grammar) (a : Analysis),
      (∀ n t, ((claimants (candidates g a n) (a.follow.of n) t).map fun x => x.1.id).Nodup) ∧
      ((∃ table, Table.build g a = .ok table) ↔ ∀ n < g.nonterminals.length,
        ∀ c ∈ candidates g a n, ∀ c' ∈ candidates g a n, ∀ t,
          t ∈ c.claims (a.follow.of n) → t ∈ c'.claims (a.follow.of n) → c = c')) ∧
    (∀ n < g.nonterminals.length, (a.first.of n).nullable = true →
      (a.first.of n).terminals.Disjoint (a.follow.of n)) ∧
    ∀ n, ∀ c ∈ candidates g a n, c.first.nullable = true → c.first.terminals.Disjoint (a.follow.of n) := by
  obtain ⟨hlegal, rfl⟩ := Draft.build_eq_ok.mp hb
  have hg := hlegal.wellFormed
  have hc : Compiled.compile d.grammar = .ok ⟨d.grammar, a, table⟩ := by
    simp only [Compiled.compile, ha, ht, bind, Except.bind, pure, Except.pure]
  obtain ⟨-, hf, hfo, -⟩ := Compiled.compile_eq_ok.mp hc
  simp only at hf hfo
  refine ⟨fun g a => ⟨nodup_claimants, isOk_build⟩, ?_, ?_⟩
  · intro n _ hnull t hfirst hfollow
    rw [hfo] at hfollow
    exact Compiled.not_follows_of_beginsWith hg hc ((FirstSets.nullable_of hg hf).mp hnull)
      ((FirstSets.mem_of hg hf).mp hfirst) ((FollowSets.mem_of hg hf).mp hfollow)
  · intro n c hmem hnull t hfirst hfollow
    obtain ⟨⟨id, p⟩, hrow, rfl⟩ := List.mem_map.mp hmem
    obtain ⟨hp, rfl⟩ := d.grammar.exists_mem_productionsOf.mp ⟨id, hrow⟩
    have hv : d.grammar.Vanishes p.rhs := (FirstSets.nullable_ofSequence hg hf).mp hnull
    have hbegin : d.grammar.BeginsWith p.rhs t := (FirstSets.mem_ofSequence hg hf).mp hfirst
    rw [hfo] at hfollow
    exact Compiled.not_follows_of_beginsWith hg hc (Grammar.vanishes_nonterminal.mpr ⟨p, hp, rfl, hv⟩)
      (Grammar.beginsWith_nonterminal.mpr ⟨p, hp, rfl, hbegin⟩) ((FollowSets.mem_of hg hf).mp hfollow)

theorem Table.first_disjoint_follow_optionalPair :
    (Compiled.optionalPair.analysis.first.of 0).nullable = true ∧
      (Compiled.optionalPair.analysis.first.of 0).terminals = [0, 1] ∧
      (Compiled.optionalPair.analysis.first.of 0).terminals.Disjoint (Compiled.optionalPair.analysis.follow.of 0) := by
  have ha : Analysis.compute Draft.optionalPair.grammar = .ok Compiled.optionalPair.analysis := by decide +kernel
  have ht : Table.build Draft.optionalPair.grammar Compiled.optionalPair.analysis =
      .ok Compiled.optionalPair.table := by decide +kernel
  obtain ⟨-, hrows, -⟩ := first_disjoint_follow Draft.build_optionalPair ha ht
  exact ⟨rfl, rfl, hrows 0 (by decide) rfl⟩

end Predictive
