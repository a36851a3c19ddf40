import Predictive.Proofs.Analysis.Sentential
import Predictive.Proofs.Table.Predict

/-!
# Rows of reachable nonterminals

A walk along the alternatives reaches the nonterminals that occur in a sentential form (`Grammar.occurs_iff_reach`), so
these are the ones that are marked as reachable (`Grammar.getElem?_reachable`). Something follows each of them: the end
marker follows the start symbol, and going on from a nonterminal, either something comes behind in the alternative, or
all of that vanishes and what follows the left-hand side takes its place (`Grammar.Occurs.exists_follows`).

Without left recursion each alternative vanishes or can begin with a terminal (`Grammar.vanishes_or_beginsWith`), even
if it derives no word. So an alternative of a reachable nonterminal has a terminal in PREDICT, the row is not empty, and
two alternatives that are the same are in conflict (`Grammar.reachable_rows_filled`). Nothing need follow a nonterminal
that is not reachable, and its row can be empty.
-/

namespace Predictive

namespace Grammar

variable {g : Grammar} {n : Nonterminal}

/-! ### Reachable nonterminals -/

/-- The nonterminal occurs in a sentential form. -/
def Occurs (g : Grammar) (n : Nonterminal) : Prop :=
  ∃ u v, g.Derives [.nonterminal g.start] (u ++ .nonterminal n :: v)

theorem mem_successors {m : Nonterminal} :
    m ∈ g.successors n ↔ ∃ p ∈ g.productions, p.lhs = n ∧ .nonterminal m ∈ p.rhs := by
  simp only [successors, List.mem_flatMap, List.mem_filterMap, Prod.exists]
  constructor
  · rintro ⟨id, p, hp, x, hx, hsome⟩
    obtain ⟨hp, hn⟩ := g.exists_mem_productionsOf.mp ⟨id, hp⟩
    cases x with
    | terminal t => simp at hsome
    | nonterminal k =>
      obtain rfl := Option.some.inj hsome
      exact ⟨p, hp, hn, hx⟩
  · rintro ⟨p, hp, hn, hm⟩
    obtain ⟨id, hp⟩ := g.exists_mem_productionsOf.mpr ⟨hp, hn⟩
    exact ⟨id, p, hp, _, hm, rfl⟩

theorem successors_lt (hg : g.WellFormed) : ∀ m, ∀ k ∈ g.successors m, k < g.nonterminals.length := by
  intro m k hk
  obtain ⟨p, hp, -, hmem⟩ := mem_successors.mp hk
  exact hg.nonterminal_lt p hp k hmem

/-- A nonterminal occurs in a sentential form exactly if alternatives lead to it from the start symbol. -/
theorem occurs_iff_reach : g.Occurs n ↔ Relation.ReflTransGen (fun a b => b ∈ g.successors a) g.start n := by
  constructor
  · rintro ⟨u, v, h⟩
    -- all nonterminals of a form are reached, for those of an alternative are one step behind its left-hand side
    suffices hall : ∀ w, g.Derives [.nonterminal g.start] w → ∀ m, .nonterminal m ∈ w →
        Relation.ReflTransGen (fun a b => b ∈ g.successors a) g.start m from hall _ h n (by simp)
    intro w hw
    induction hw with
    | refl =>
      intro m hm
      obtain rfl : m = g.start := by simpa using hm
      exact .refl
    | tail _ hs ih =>
      cases hs with
      | replace a b p hp =>
        intro m hm
        rcases List.mem_append.mp hm with hm | hm
        · rcases List.mem_append.mp hm with hm | hm
          · exact ih m (by simp [hm])
          · exact (ih p.lhs (by simp)).tail (mem_successors.mpr ⟨p, hp, rfl, hm⟩)
        · exact ih m (by simp [hm])
  · intro h
    induction h with
    | refl => exact ⟨[], [], .refl _⟩
    | tail _ hstep ih =>
      obtain ⟨u, v, huv⟩ := ih
      obtain ⟨p, hp, rfl, hm⟩ := mem_successors.mp hstep
      obtain ⟨a, b, hr⟩ := List.append_of_mem hm
      have hform := huv.tail (Step.replace u v p hp)
      exact ⟨u ++ a, b ++ v, by simpa [hr] using hform⟩

theorem Occurs.lt (hg : g.WellFormed) (h : g.Occurs n) : n < g.nonterminals.length := by
  rcases (occurs_iff_reach.mp h).cases_tail with rfl | ⟨m, -, hstep⟩
  · exact hg.start_lt
  · exact successors_lt hg m n hstep

/-- The nonterminals of sentential forms are marked, and no others. -/
theorem getElem?_reachable (hg : g.WellFormed) : g.reachable[n]? = some true ↔ g.Occurs n := by
  have hreached : g.reached.has n = true ↔ g.Occurs n := by
    rw [occurs_iff_reach]
    exact Walk.has_visited_run (successors_lt hg) hg.start_lt
  by_cases hn : n < g.nonterminals.length
  · simp [reachable, nonterminalIds, hn, hreached]
  · have hnot : ¬ g.Occurs n := fun h => hn (h.lt hg)
    simp [reachable, nonterminalIds, hn, hnot]

/-! ### What follows reachable nonterminals -/

section First

variable {first : FirstSets} (hg : g.WellFormed) (h : FirstSets.compute g = .ok first)

include hg h

/-- A sequence vanishes or can begin with some terminal, whether or not it derives a word. -/
theorem vanishes_or_beginsWith {u : List Symbol} (hu : ∀ n, .nonterminal n ∈ u → n < g.nonterminals.length) :
    g.Vanishes u ∨ ∃ t, g.BeginsWith u t := by
  refine vanishes_or_beginsWith_of_corners fun a n b hab _ => ?_
  exact FirstSets.vanishes_or_beginsWith hg h n (hu n (by simp [hab]))

theorem Occurs.exists_follows (ho : g.Occurs n) : ∃ t, g.Follows n t := by
  induction occurs_iff_reach.mp ho with
  | refl => exact ⟨g.eof, .start⟩
  | tail hreach hstep ih =>
    obtain ⟨t, ht⟩ := ih (occurs_iff_reach.mpr hreach)
    obtain ⟨p, hp, rfl, hm⟩ := mem_successors.mp hstep
    obtain ⟨u, v, hr⟩ := List.append_of_mem hm
    have hv := vanishes_or_beginsWith hg h (u := v) fun k hk => hg.nonterminal_lt p hp k (by simp [hr, hk])
    rcases hv with hv | ⟨x, hx⟩
    · exact ⟨t, .inherit hp hr hv ht⟩
    · exact ⟨x, .next hp hr hx⟩

/-- Each alternative of a reachable nonterminal has a terminal in PREDICT. -/
theorem Occurs.exists_predicts (ho : g.Occurs n) {q : ProductionId × Production} (hq : q ∈ g.productionsOf n) :
    ∃ t, Analysis.Predicts ⟨first, FollowSets.compute g first⟩ q.2 t := by
  obtain ⟨hid, rfl⟩ := g.mem_productionsOf.mp hq
  have hp := List.mem_of_getElem? hid
  rcases vanishes_or_beginsWith hg h (hg.nonterminal_lt q.2 hp) with hv | ⟨t, ht⟩
  · obtain ⟨t, ht⟩ := ho.exists_follows hg h
    exact ⟨t, Or.inr ⟨(FirstSets.nullable_ofSequence hg h).mpr hv, (FollowSets.mem_of hg h).mpr ht⟩⟩
  · exact ⟨t, Or.inl ((FirstSets.mem_ofSequence hg h).mpr ht)⟩

end First

/-! ### Alternatives that are the same -/

/-- No production repeats an earlier one if any two have different right-hand sides. -/
private theorem duplicates_eq_nil : g.duplicates n = [] ↔
    (g.productionsOf n).Pairwise fun q r => q.2.rhs ≠ r.2.rhs := by
  have hsplit : g.duplicates n = [] ↔ ∀ i p, ((g.productionsOf n).map Prod.snd)[i]? = some p →
      ∀ q ∈ ((g.productionsOf n).map Prod.snd).take i, q.rhs ≠ p.rhs := by
    simp only [duplicates, List.filterMap_eq_nil_iff, Prod.forall, List.mk_mem_zipIdx_iff_getElem?]
    constructor
    · intro h i p hp q hq heq
      have hnone := h p i hp
      rw [if_pos (List.any_eq_true.mpr ⟨q, hq, by simpa using heq⟩)] at hnone
      simp at hnone
    · intro h p i hp
      refine if_neg fun hany => ?_
      obtain ⟨q, hq, heq⟩ := List.any_eq_true.mp hany
      exact h i p hp q hq (beq_iff_eq.mp heq)
  have hmap : (g.productionsOf n).Pairwise (fun q r => q.2.rhs ≠ r.2.rhs) ↔
      ((g.productionsOf n).map Prod.snd).Pairwise fun p q => p.rhs ≠ q.rhs := by
    rw [List.pairwise_map]
  rw [hsplit, hmap, List.pairwise_iff_getElem]
  constructor
  · intro h i j hi hj hij
    exact h j _ (List.getElem?_eq_getElem hj) _ (List.mem_take_iff_getElem.mpr ⟨i, by omega, rfl⟩)
  · intro h i p hp q hq
    obtain ⟨hi, rfl⟩ := List.getElem?_eq_some_iff.mp hp
    obtain ⟨j, hj, rfl⟩ := List.mem_take_iff_getElem.mp hq
    exact h j i (by omega) hi (by omega)

/-- A production that repeats an earlier one is found if two productions of the nonterminal are the same. -/
theorem duplicates_ne_nil : g.duplicates n ≠ [] ↔
    ∃ q ∈ g.productionsOf n, ∃ r ∈ g.productionsOf n, q.1 ≠ r.1 ∧ q.2.rhs = r.2.rhs := by
  rw [ne_eq, duplicates_eq_nil]
  constructor
  · intro h
    have hnodup : (g.productionsOf n).Nodup := .of_map _ (nodup_productionsOf n)
    refine Classical.byContradiction fun hnone => h (hnodup.pairwise_of_forall_ne fun q hq r hr hne heq => ?_)
    exact hnone ⟨q, hq, r, hr, fun hid => hne (List.inj_on_of_nodup_map (nodup_productionsOf n) hq hr hid), heq⟩
  · rintro ⟨q, hq, r, hr, hne, heq⟩ hpairwise
    have : Std.Symm fun q r : ProductionId × Production => q.2.rhs ≠ r.2.rhs := ⟨fun _ _ h => h.symm⟩
    exact hpairwise.forall hq hr (fun h => hne (congrArg Prod.fst h)) heq

end Grammar

/-! ### Rows -/

/-- A contested key is among the issues for which a grammar is refused. -/
private theorem Compiled.compile_of_contested {g : Grammar} {a : Analysis} (hg : g.WellFormed)
    (ha : Analysis.compute g = .ok a) {n : Nonterminal} {t : Terminal} (h : Table.Contested g a n t) :
    ∃ issues, compile g = .error issues ∧ Table.conflictAt g a (n, t) ∈ issues := by
  obtain ⟨keys, -, hkeys, hconflicts⟩ := Table.exists_contested_keys (a := a) hg
  have hmem : Table.conflictAt g a (n, t) ∈ Table.conflicts g a := by
    rw [hconflicts]
    exact List.mem_map_of_mem ((hkeys n t).mpr h)
  refine ⟨Table.conflicts g a, ?_, hmem⟩
  have htable : Table.build g a = .error (Table.conflicts g a) := if_neg (List.ne_nil_of_mem hmem)
  simp only [compile, ha, htable, bind, Except.bind]

/-- Marked as reachable are the nonterminals of sentential forms, also by a loop that keeps them on a stack. Something
follows each of them, and each of their alternatives vanishes or begins with something. So a compiled grammar has an
entry for each, and is refused if one has the same alternative twice. -/
theorem Grammar.reachable_rows_filled {d : Draft} {g : Grammar} {first : FirstSets} (hb : d.build = .ok g)
    (h : FirstSets.compute g = .ok first) :
    (g.reachable.length = g.nonterminals.length ∧
      ∀ n : Nonterminal, g.reachable[n]? = some true ↔
        ∃ u v, g.Derives [.nonterminal g.start] (u ++ .nonterminal n :: v)) ∧
    (∃ seen, Walk.drain? g.successors g.nonterminals.length (({} : Marks).insert g.start, [g.start]) = some seen ∧
      g.reachable = g.nonterminalIds.map seen.has) ∧
    (∀ n : Nonterminal, g.reachable[n]? = some true → (FollowSets.compute g first).of n ≠ [] ∧
      ∀ q ∈ g.productionsOf n, (first.ofSequence q.2.rhs).nullable = true ∨ (first.ofSequence q.2.rhs).terminals ≠ []) ∧
    (∀ c, Compiled.compile g = .ok c → 0 < c.table.size ∧
      ∀ n : Nonterminal, g.reachable[n]? = some true → ∃ t p, c.table.get? n t = some p) ∧
    ∀ n : Nonterminal, (g.duplicates n ≠ [] ↔
        ∃ q ∈ g.productionsOf n, ∃ r ∈ g.productionsOf n, q.1 ≠ r.1 ∧ q.2.rhs = r.2.rhs) ∧
      (g.reachable[n]? = some true → g.duplicates n ≠ [] → ∃ issues, Compiled.compile g = .error issues ∧
        ∃ t alternatives, .conflict (g.nonterminalName n) t alternatives ∈ issues) := by
  obtain ⟨hlegal, rfl⟩ := Draft.build_eq_ok.mp hb
  have hg := hlegal.wellFormed
  have hrow : ∀ c, Compiled.compile d.grammar = .ok c → ∀ n, d.grammar.Occurs n → ∃ t p, c.table.get? n t = some p := by
    intro c hc n hn
    obtain ⟨t, ht⟩ := hn.exists_follows hg h
    obtain ⟨x, symbols, hx⟩ := Compiled.exists_predictor hg hc (hn.lt hg) ht
    obtain ⟨p, hp, -⟩ := Option.map_eq_some_iff.mp hx
    exact ⟨x, p, hp⟩
  refine ⟨⟨?_, fun n => getElem?_reachable hg⟩, ?_, ?_, ?_, ?_⟩
  · simp [reachable, nonterminalIds]
  · obtain ⟨seen, hdrain, hseen⟩ := Walk.drain?_eq_some (successors_lt hg) hg.start_lt (Nat.le_refl _)
    exact ⟨seen, hdrain, List.map_congr_left fun n _ => (hseen n).symm⟩
  · intro n hn
    have ho := (getElem?_reachable hg).mp hn
    constructor
    · obtain ⟨t, ht⟩ := ho.exists_follows hg h
      exact List.ne_nil_of_mem ((FollowSets.mem_of hg h).mpr ht)
    · intro q hq
      obtain ⟨t, ht | ⟨hnull, -⟩⟩ := ho.exists_predicts hg h hq
      · exact Or.inr (List.ne_nil_of_mem ht)
      · exact Or.inl hnull
  · intro c hc
    refine ⟨?_, fun n hn => hrow c hc n ((getElem?_reachable hg).mp hn)⟩
    obtain ⟨t, p, hp⟩ := hrow c hc d.grammar.start ⟨[], [], .refl _⟩
    obtain ⟨entry, hentry, -⟩ := List.mem_map.mp (mem_of_lookup_eq_some hp)
    exact List.length_pos_of_mem hentry
  · refine fun n => ⟨duplicates_ne_nil, fun hn hdup => ?_⟩
    obtain ⟨⟨i, p⟩, hp, ⟨j, q⟩, hq, hne, heq⟩ := duplicates_ne_nil.mp hdup
    -- the two are one production under two numbers, so what one predicts the other one does
    obtain rfl : p = q := by
      obtain ⟨-, rfl⟩ := d.grammar.mem_productionsOf.mp hp
      obtain ⟨-, hlhs⟩ := d.grammar.mem_productionsOf.mp hq
      exact congrArg₂ Production.mk hlhs.symm heq
    obtain ⟨t, ht⟩ := ((getElem?_reachable hg).mp hn).exists_predicts hg h hp
    obtain ⟨issues, hissues, hmem⟩ := Compiled.compile_of_contested hg (Analysis.compute_eq_ok.mpr ⟨h, rfl⟩)
      ⟨(i, p), hp, (j, p), hq, hne, ht, ht⟩
    exact ⟨issues, hissues, _, _, hmem⟩

/-- In the list that goes on through two nonterminals in turn nothing leads to a remark, and nothing follows it; each of
the other two has an entry. The call is refused for its arguments, which are given twice. -/
theorem Grammar.reachable_rows_filled_alternating :
    (Draft.alternating.grammar.reachable = [true, true, false] ∧
      (∃ u v, Draft.alternating.grammar.Derives [.nonterminal 0] (u ++ .nonterminal 1 :: v)) ∧
      (FollowSets.compute Draft.alternating.grammar FirstSets.alternating).of 2 = [] ∧
      ∃ c, Compiled.compile Draft.alternating.grammar = .ok c ∧ ∃ t p, c.table.get? 1 t = some p) ∧
    ∃ issues, Compiled.compile Draft.call.grammar = .error issues ∧
      ∃ t alternatives, .conflict "arguments" t alternatives ∈ issues := by
  have hb : Draft.alternating.build = .ok Draft.alternating.grammar := by decide +kernel
  have h : FirstSets.compute Draft.alternating.grammar = .ok FirstSets.alternating := by decide +kernel
  have hcall : Draft.call.build = .ok Draft.call.grammar := by decide +kernel
  have hfirst : FirstSets.compute Draft.call.grammar = .ok Analysis.call.first := by decide +kernel
  have hmarks : Draft.alternating.grammar.reachable = [true, true, false] := by decide +kernel
  have heven : Draft.alternating.grammar.reachable[1]? = some true := by rw [hmarks]; rfl
  obtain ⟨⟨-, hoccurs⟩, -, -, hentries, -⟩ := reachable_rows_filled hb h
  obtain ⟨-, -, -, -, hrefused⟩ := reachable_rows_filled hcall hfirst
  refine ⟨⟨hmarks, (hoccurs 1).mp heven, by decide +kernel, ?_⟩, ?_⟩
  · have hok : (Compiled.compile Draft.alternating.grammar).isOk = true := by decide +kernel
    cases hc : Compiled.compile Draft.alternating.grammar with
    | error issues => simp [hc, Except.isOk, Except.toBool] at hok
    | ok c => exact ⟨c, rfl, (hentries c hc).2 1 heven⟩
  · exact (hrefused 1).2 (by decide +kernel) (by decide +kernel)

end Predictive
