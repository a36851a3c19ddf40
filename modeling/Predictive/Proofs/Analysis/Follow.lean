import Predictive.Analysis.Follow
import Predictive.Proofs.Analysis.First
import Predictive.Proofs.Walk

/-!
# FOLLOW sets and derivations

What can come after a nonterminal is told by three rules (`Grammar.Follows`): the end marker comes after the start
symbol; whatever can begin the rest of an alternative comes after a nonterminal in it; and where the rest vanishes,
so does whatever comes after the left-hand side. The FOLLOW sets of a grammar have exactly this
(`FollowSets.mem_of`), since the walks along the edges visit all that is reached.

In a sentential form each nonterminal is followed only by what these rules tell (`Grammar.FollowSafe`): it is so for
the start symbol, and replacing a nonterminal keeps it (`Grammar.FollowSafeBefore.replace`).
-/

namespace Predictive

namespace Grammar

/-- The terminal can come right after the nonterminal; the end marker stands for the end of the input. -/
inductive Follows (g : Grammar) : Nonterminal → Terminal → Prop where
  | start : Follows g g.start g.eof
  | next {p : Production} {u v : List Symbol} {n : Nonterminal} {t : Terminal} (hp : p ∈ g.productions)
    (hr : p.rhs = u ++ .nonterminal n :: v) (ht : g.BeginsWith v t) : Follows g n t
  | inherit {p : Production} {u v : List Symbol} {n : Nonterminal} {t : Terminal} (hp : p ∈ g.productions)
    (hr : p.rhs = u ++ .nonterminal n :: v) (hv : g.Vanishes v) (h : Follows g p.lhs t) : Follows g n t

variable {g : Grammar}

private theorem Follows.lt (hg : g.WellFormed) {n : Nonterminal} {t : Terminal} (h : g.Follows n t) :
    n < g.nonterminals.length := by
  cases h with
  | start => exact hg.start_lt
  | next hp hr _ => exact hg.nonterminal_lt _ hp n (by simp [hr])
  | inherit hp hr _ _ => exact hg.nonterminal_lt _ hp n (by simp [hr])

/-! ### Sentential forms -/

/-- Every nonterminal of the sequence has in FOLLOW what can come right after it, where the terminals of `ends` come
after the sequence. -/
def FollowSafeBefore (g : Grammar) (ends : Terminal → Prop) (u : List Symbol) : Prop :=
  ∀ a n b, u = a ++ .nonterminal n :: b →
    (∀ t, g.BeginsWith b t → g.Follows n t) ∧ (g.Vanishes b → ∀ t, ends t → g.Follows n t)

theorem followSafeBefore_singleton {n : Nonterminal} {ends : Terminal → Prop} (h : ∀ t, ends t → g.Follows n t) :
    g.FollowSafeBefore ends [.nonterminal n] := by
  intro a m b hab
  cases a with
  | nil =>
    simp only [List.nil_append, List.cons.injEq, Symbol.nonterminal.injEq] at hab
    obtain ⟨rfl, rfl⟩ := hab
    exact ⟨fun t ht => (not_beginsWith_nil ht).elim, fun _ => h⟩
  | cons x a => simp at hab

/-- Replacing a nonterminal by one of its alternatives keeps FOLLOW safe, whatever comes after the sequence. -/
theorem FollowSafeBefore.replace {ends : Terminal → Prop} {u v : List Symbol} {p : Production}
    (hp : p ∈ g.productions) (h : g.FollowSafeBefore ends (u ++ .nonterminal p.lhs :: v)) :
    g.FollowSafeBefore ends (u ++ p.rhs ++ v) := by
  have hstep : ∀ c, g.Derives (c ++ .nonterminal p.lhs :: v) (c ++ p.rhs ++ v) :=
    fun c => (Derives.refl _).tail (Step.replace c v p hp)
  obtain ⟨hnext, hend⟩ := h u p.lhs v rfl
  intro a n b hab
  rw [List.append_assoc] at hab
  rcases append_eq_append_cons hab with ⟨c, rfl, rfl⟩ | ⟨c, rfl, hc⟩
  · -- the nonterminal stands in front of what is replaced
    obtain ⟨hnext', hend'⟩ := h a n (c ++ .nonterminal p.lhs :: v) (by simp)
    rw [← List.append_assoc]
    constructor
    · rintro t ⟨w, hw⟩
      exact hnext' t ⟨w, (hstep c).trans hw⟩
    · intro hv
      exact hend' ((hstep c).trans hv)
  · rcases append_eq_append_cons hc with ⟨d, hr, rfl⟩ | ⟨d, rfl, rfl⟩
    · -- it stands in the alternative
      constructor
      · intro t ht
        rcases beginsWith_append.mp ht with ht | ⟨hd, ht⟩
        · exact .next hp hr ht
        · exact .inherit hp hr hd (hnext t ht)
      · intro hv t ht
        obtain ⟨hd, hv⟩ := vanishes_append.mp hv
        exact .inherit hp hr hd (hend hv t ht)
    · -- it stands behind
      exact h (u ++ .nonterminal p.lhs :: d) n b (by simp)

/-- Every nonterminal of the sequence has in FOLLOW what can come right after it; the end marker comes after the
sequence. -/
def FollowSafe (g : Grammar) (u : List Symbol) : Prop :=
  ∀ a n b, u = a ++ .nonterminal n :: b →
    (∀ t, g.BeginsWith b t → g.Follows n t) ∧ (g.Vanishes b → g.Follows n g.eof)

theorem followSafe_iff {u : List Symbol} : g.FollowSafe u ↔ g.FollowSafeBefore (· = g.eof) u := by
  simp only [FollowSafe, FollowSafeBefore, forall_eq]

theorem followSafe_start : g.FollowSafe [.nonterminal g.start] := by
  refine followSafe_iff.mpr (followSafeBefore_singleton ?_)
  rintro t rfl
  exact .start

theorem FollowSafe.right {u v : List Symbol} (h : g.FollowSafe (u ++ v)) : g.FollowSafe v :=
  fun a n b hv => h (u ++ a) n b (by rw [hv, List.append_assoc])

theorem FollowSafe.tail {x : Symbol} {u : List Symbol} (h : g.FollowSafe (x :: u)) : g.FollowSafe u :=
  FollowSafe.right (u := [x]) h

/-- Replacing a nonterminal by one of its alternatives keeps FOLLOW safe. -/
theorem FollowSafe.replace {u v : List Symbol} {p : Production} (hp : p ∈ g.productions)
    (h : g.FollowSafe (u ++ .nonterminal p.lhs :: v)) : g.FollowSafe (u ++ p.rhs ++ v) :=
  followSafe_iff.mpr ((followSafe_iff.mp h).replace hp)

end Grammar

/-! ### The edges -/

theorem mem_occurrences {first : FirstSets} {lhs : Nonterminal} {symbols : List Symbol} {o : Occurrence} :
    o ∈ occurrences first lhs symbols ↔
      ∃ u n v, symbols = u ++ .nonterminal n :: v ∧ o = ⟨lhs, n, first.ofSequence v⟩ := by
  induction symbols with
  | nil => simp [occurrences]
  | cons x symbols ih =>
    cases x with
    | terminal t =>
      simp only [occurrences, ih]
      constructor
      · rintro ⟨u, n, v, rfl, ho⟩
        exact ⟨.terminal t :: u, n, v, rfl, ho⟩
      · rintro ⟨u, n, v, h, ho⟩
        cases u with
        | nil => simp at h
        | cons y u =>
          rw [List.cons_append, List.cons.injEq] at h
          exact ⟨u, n, v, h.2, ho⟩
    | nonterminal m =>
      simp only [occurrences, List.mem_cons, ih]
      constructor
      · rintro (ho | ⟨u, n, v, rfl, ho⟩)
        · exact ⟨[], m, symbols, rfl, ho⟩
        · exact ⟨.nonterminal m :: u, n, v, rfl, ho⟩
      · rintro ⟨u, n, v, h, ho⟩
        cases u with
        | nil =>
          simp only [List.nil_append, List.cons.injEq, Symbol.nonterminal.injEq] at h
          obtain ⟨rfl, rfl⟩ := h
          exact Or.inl ho
        | cons y u =>
          rw [List.cons_append, List.cons.injEq] at h
          exact Or.inr ⟨u, n, v, h.2, ho⟩

theorem Grammar.mem_occurrences {g : Grammar} {first : FirstSets} {o : Occurrence} :
    o ∈ g.occurrences first ↔ ∃ p ∈ g.productions, ∃ u n v,
      p.rhs = u ++ .nonterminal n :: v ∧ o = ⟨p.lhs, n, first.ofSequence v⟩ := by
  simp only [Grammar.occurrences, List.mem_flatMap, Predictive.mem_occurrences]

private theorem Grammar.mem_occurrences_of {g : Grammar} {p : Production} (hp : p ∈ g.productions)
    {u v : List Symbol} {n : Nonterminal} (hr : p.rhs = u ++ .nonterminal n :: v) (first : FirstSets) :
    ⟨p.lhs, n, first.ofSequence v⟩ ∈ g.occurrences first :=
  Grammar.mem_occurrences.mpr ⟨p, hp, u, n, v, hr, rfl⟩

namespace FollowEdges

variable {g : Grammar} {first : FirstSets}

private theorem mem_foldr_union {l : List Occurrence} {rest : List Terminal} {t : Terminal} :
    t ∈ l.foldr (fun o l => union o.after.terminals l) rest ↔ (∃ o ∈ l, t ∈ o.after.terminals) ∨ t ∈ rest := by
  induction l with
  | nil => simp
  | cons o l ih => simp [ih, or_assoc]

private theorem mem_direct {n : Nonterminal} {t : Terminal} :
    (∃ l, (ofGrammar g first).direct[n]? = some l ∧ t ∈ l) ↔ n < g.nonterminals.length ∧
      ((∃ o ∈ g.occurrences first, o.nonterminal = n ∧ t ∈ o.after.terminals) ∨ n = g.start ∧ t = g.eof) := by
  by_cases hn : n < g.nonterminals.length
  · simp only [ofGrammar, Grammar.nonterminalIds, List.getElem?_map, List.getElem?_range hn, Option.map_some,
      Option.some.injEq, exists_eq_left', mem_foldr_union, List.mem_filter, decide_eq_true_eq, and_assoc, hn,
      true_and]
    split <;> simp [*]
  · simp [ofGrammar, Grammar.nonterminalIds, hn]

private theorem mem_includes {n m : Nonterminal} :
    m ∈ (ofGrammar g first).includes.getD n [] ↔ n < g.nonterminals.length ∧
      ∃ o ∈ g.occurrences first, o.nonterminal = n ∧ o.after.nullable = true ∧ o.lhs ≠ n ∧ o.lhs = m := by
  by_cases hn : n < g.nonterminals.length
  · simp [ofGrammar, Grammar.nonterminalIds, Array.getD_eq_getD_getElem?, and_assoc, hn]
  · simp [ofGrammar, Grammar.nonterminalIds, Array.getD_eq_getD_getElem?, hn]

theorem length_direct : (ofGrammar g first).direct.length = g.nonterminals.length := by
  simp [ofGrammar, Grammar.nonterminalIds]

/-- The edges lead to nonterminals of the grammar. -/
theorem includes_lt (hg : g.WellFormed) : ∀ m, ∀ k ∈ (ofGrammar g first).includes.getD m [],
    k < (ofGrammar g first).direct.length := by
  intro m k hk
  obtain ⟨-, o, ho, -, -, -, rfl⟩ := mem_includes.mp hk
  obtain ⟨p, hp, u, b, v, -, rfl⟩ := Grammar.mem_occurrences.mp ho
  rw [length_direct]
  exact hg.lhs_lt p hp

private theorem mem_follow_iff {e : FollowEdges} {n : Nonterminal} {t : Terminal} :
    t ∈ e.follow n ↔ ∃ m, (e.walk n).visited.has m = true ∧ ∃ l, e.direct[m]? = some l ∧ t ∈ l := by
  have hfold : ∀ l : List (List Terminal × Nat),
      t ∈ l.foldr (fun x l => if (e.walk n).visited.has x.2 then union x.1 l else l) [] ↔
        ∃ x ∈ l, (e.walk n).visited.has x.2 = true ∧ t ∈ x.1 := by
    intro l
    induction l with
    | nil => simp
    | cons x l ih =>
      simp only [List.foldr_cons, List.mem_cons, exists_eq_or_imp]
      split <;> simp [*]
  refine (hfold e.direct.zipIdx).trans ?_
  simp only [Prod.exists, List.mk_mem_zipIdx_iff_getElem?]
  constructor
  · rintro ⟨l, m, hl, hm, ht⟩
    exact ⟨m, hm, l, hl, ht⟩
  · rintro ⟨m, hm, l, hl, ht⟩
    exact ⟨l, m, hl, hm, ht⟩

end FollowEdges

/-! ### FOLLOW is what comes after a nonterminal -/

namespace FollowSets

open FollowEdges

variable {g : Grammar} {first : FirstSets}

private theorem follows_direct (hg : g.WellFormed) (h : FirstSets.compute g = .ok first) {n : Nonterminal}
    {t : Terminal} (ht : ∃ l, (ofGrammar g first).direct[n]? = some l ∧ t ∈ l) : g.Follows n t := by
  obtain ⟨-, ⟨o, ho, rfl, hto⟩ | ⟨rfl, rfl⟩⟩ := mem_direct.mp ht
  · obtain ⟨p, hp, u, m, v, hr, rfl⟩ := Grammar.mem_occurrences.mp ho
    exact .next hp hr ((FirstSets.mem_ofSequence hg h).mp hto)
  · exact .start

private theorem follows_includes (hg : g.WellFormed) (h : FirstSets.compute g = .ok first) {n m : Nonterminal}
    {t : Terminal} (hm : m ∈ (ofGrammar g first).includes.getD n []) (ht : g.Follows m t) : g.Follows n t := by
  obtain ⟨-, o, ho, hn, hnull, -, rfl⟩ := mem_includes.mp hm
  obtain ⟨p, hp, u, k, v, hr, rfl⟩ := Grammar.mem_occurrences.mp ho
  subst hn
  exact .inherit hp hr ((FirstSets.nullable_ofSequence hg h).mp hnull) ht

private theorem follows_of_reach (hg : g.WellFormed) (h : FirstSets.compute g = .ok first) {n m : Nonterminal}
    {t : Terminal} (hm : Relation.ReflTransGen (fun a b => b ∈ (ofGrammar g first).includes.getD a []) n m)
    (ht : g.Follows m t) : g.Follows n t := by
  induction hm with
  | refl => exact ht
  | tail _ hstep ih => exact ih (follows_includes hg h hstep ht)

/-- What follows a nonterminal is direct at some nonterminal that the edges lead to. -/
private theorem exists_direct (hg : g.WellFormed) (h : FirstSets.compute g = .ok first) {n : Nonterminal}
    {t : Terminal} (ht : g.Follows n t) :
    ∃ m, Relation.ReflTransGen (fun a b => b ∈ (ofGrammar g first).includes.getD a []) n m ∧
      ∃ l, (ofGrammar g first).direct[m]? = some l ∧ t ∈ l := by
  induction ht with
  | start => exact ⟨g.start, .refl, mem_direct.mpr ⟨hg.start_lt, Or.inr ⟨rfl, rfl⟩⟩⟩
  | @next p u v n t hp hr ht =>
    have hn : n < g.nonterminals.length := hg.nonterminal_lt p hp n (by simp [hr])
    have ho := Grammar.mem_occurrences_of hp hr first
    exact ⟨n, .refl, mem_direct.mpr ⟨hn, Or.inl ⟨_, ho, rfl, (FirstSets.mem_ofSequence hg h).mpr ht⟩⟩⟩
  | @inherit p u v n t hp hr hv _ ih =>
    obtain ⟨m, hm, hd⟩ := ih
    -- there are no edges from a nonterminal to itself, and none is needed
    by_cases hself : p.lhs = n
    · exact ⟨m, hself ▸ hm, hd⟩
    · have hn : n < g.nonterminals.length := hg.nonterminal_lt p hp n (by simp [hr])
      have ho := Grammar.mem_occurrences_of hp hr first
      have hedge := mem_includes.mpr
        ⟨hn, _, ho, rfl, (FirstSets.nullable_ofSequence hg h).mpr hv, hself, rfl⟩
      exact ⟨m, .head hedge hm, hd⟩

/-- FOLLOW of a nonterminal has exactly what can come right after it. -/
theorem mem_of (hg : g.WellFormed) (h : FirstSets.compute g = .ok first) {n : Nonterminal} {t : Terminal} :
    t ∈ (compute g first).of n ↔ g.Follows n t := by
  by_cases hn : n < g.nonterminals.length
  · have hof : (compute g first).of n = (ofGrammar g first).follow n := by
      simp [of, compute, Grammar.nonterminalIds, hn]
    rw [hof, mem_follow_iff]
    simp only [walk, Walk.has_visited_run (includes_lt hg) (length_direct ▸ hn)]
    constructor
    · rintro ⟨m, hm, ht⟩
      exact follows_of_reach hg h hm (follows_direct hg h ht)
    · exact exists_direct hg h
  · constructor
    · intro ht
      simp [of, compute, Grammar.nonterminalIds, Nat.le_of_not_lt hn] at ht
    · intro ht
      exact absurd (ht.lt hg) hn

end FollowSets

end Predictive
