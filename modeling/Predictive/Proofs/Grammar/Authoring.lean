import Predictive.Proofs.Grammar.Derivation
import Predictive.Proofs.Grammar.Draft

/-!
# Authored grammars

A draft is authored by steps in any order, each of which declares terminals or adds a rule (`Draft.authored`). It does not
matter how declarations and rules are mixed: what counts is in which order the terminals are declared, and in which order
each left-hand side gets its alternatives (`Draft.authored_tells`).

The issues of a draft are exactly the rules of authoring that it breaks (`Draft.Violates`), each once. A draft that
breaks none gives a grammar in which everything that was authored can be read back by name
(`Draft.Faithful`), so that nothing that numbers symbols has to check them again.
-/

namespace Predictive

namespace Draft

/-! ### Steps of authoring -/

inductive Edit where
  | declare (names : List String)
  | rule (lhs : String) (rhs : List String)
deriving DecidableEq

/-- The terminals that a step declares. -/
def Edit.declared : Edit → List String
  | .declare names => names
  | .rule _ _ => []

/-- The left-hand side that a step adds to. -/
def Edit.left : Edit → Option String
  | .declare _ => none
  | .rule lhs _ => some lhs

/-- The alternative that a step gives to a left-hand side. -/
def Edit.alternative (lhs : String) : Edit → Option (List String)
  | .declare _ => none
  | .rule l rhs => if l = lhs then some rhs else none

def edit (d : Draft) : Edit → Draft
  | .declare names => d.declare names
  | .rule lhs rhs => d.addRule lhs rhs

/-- The draft of a start symbol and of steps, one after the other. -/
def authored (start : String) (edits : List Edit) : Draft := edits.foldl edit { start := start }

/-- A draft has this start symbol, and has what these steps add, in order. -/
structure Tells (d : Draft) (start : String) (edits : List Edit) : Prop where
  start_eq : d.start = start
  terminals_eq : d.terminals = edits.flatMap Edit.declared
  lefts_eq : d.rules.map Prod.fst = edits.filterMap Edit.left
  alternatives_eq : ∀ lhs, d.alternatives lhs = edits.filterMap (Edit.alternative lhs)

theorem Tells.edit {d : Draft} {start : String} {edits : List Edit} (h : d.Tells start edits) (e : Edit) :
    (d.edit e).Tells start (edits ++ [e]) := by
  cases e with
  | declare names =>
    refine ⟨h.start_eq, ?_, ?_, ?_⟩
    · simp [Draft.edit, declare, h.terminals_eq, Edit.declared]
    · simp [Draft.edit, declare, h.lefts_eq, Edit.left]
    · intro lhs
      have hsame : (d.declare names).alternatives lhs = d.alternatives lhs := rfl
      simp [Draft.edit, hsame, h.alternatives_eq, Edit.alternative]
  | rule l rhs =>
    refine ⟨h.start_eq, ?_, ?_, ?_⟩
    · simp [Draft.edit, addRule, h.terminals_eq, Edit.declared]
    · simp [Draft.edit, addRule, h.lefts_eq, Edit.left]
    · intro lhs
      rw [Draft.edit, alternatives_addRule, h.alternatives_eq]
      by_cases hl : l = lhs <;> simp [Edit.alternative, hl]

theorem authored_tells (start : String) (edits : List Edit) : (authored start edits).Tells start edits := by
  -- induction on the steps that are left, from any draft that tells those before
  have hrun : ∀ (edits before : List Edit) (d : Draft), d.Tells start before →
      (edits.foldl edit d).Tells start (before ++ edits) := by
    intro edits
    induction edits with
    | nil =>
      intro before d hd
      simpa using hd
    | cons e edits ih =>
      intro before d hd
      simpa using ih (before ++ [e]) (d.edit e) (hd.edit e)
  have hempty : ({ start := start } : Draft).Tells start [] := ⟨rfl, rfl, rfl, fun _ => rfl⟩
  exact hrun edits [] _ hempty

/-! ### Issues -/

/-- What a draft breaks, as an issue. -/
inductive Violates (d : Draft) : Issue → Prop where
  | undefinedStart (h : d.alternatives d.start = []) : Violates d (.undefinedStart d.start)
  | terminalHasRules (name : String) (hterm : name ∈ d.terminals) (hrules : d.alternatives name ≠ []) :
    Violates d (.terminalHasRules name)
  | markHasRules (h : d.alternatives endMarker ≠ []) : Violates d (.reserved endMarker)
  | markUsed (lhs : String) (rhs : List String) (hrhs : rhs ∈ d.alternatives lhs) (h : endMarker ∈ rhs) :
    Violates d (.reserved endMarker)
  | unresolved (lhs : String) (rhs : List String) (name : String) (hrhs : rhs ∈ d.alternatives lhs) (hname : name ∈ rhs)
    (hmark : name ≠ endMarker) (hrules : d.alternatives name = []) (hterm : name ∉ d.terminals) :
    Violates d (.unresolved lhs name)

variable {d : Draft}

private theorem not_mem_lefts {lhs : String} : lhs ∉ d.lefts ↔ d.alternatives lhs = [] := by
  rw [mem_lefts, not_not]

private theorem violates_undefinedStart {i : Issue} :
    i ∈ (if d.start ∈ d.lefts then [] else [Issue.undefinedStart d.start]) ↔
      d.alternatives d.start = [] ∧ i = .undefinedStart d.start := by
  rw [← not_mem_lefts]
  split
  · simp [*]
  · simp [*]

private theorem violates_markHasRules {i : Issue} :
    i ∈ (if endMarker ∈ d.lefts then [Issue.reserved endMarker] else []) ↔
      d.alternatives endMarker ≠ [] ∧ i = .reserved endMarker := by
  rw [← mem_lefts]
  split
  · simp [*]
  · simp [*]

private theorem violates_names {i : Issue} :
    (∃ lhs ∈ d.lefts, ∃ name ∈ (d.alternatives lhs).flatten, d.vocabulary.nameIssue lhs name = some i) ↔
      ∃ lhs, ∃ rhs ∈ d.alternatives lhs, ∃ name ∈ rhs, name = endMarker ∧ i = .reserved endMarker ∨
        name ≠ endMarker ∧ d.alternatives name = [] ∧ name ∉ d.terminals ∧ i = .unresolved lhs name := by
  have hnone : ∀ name, name ≠ endMarker → (¬ (name ∈ d.lefts ∨ name ∈ d.vocabulary.terminals) ↔
      d.alternatives name = [] ∧ name ∉ d.terminals) := by
    intro name hmark
    rw [not_or, not_mem_lefts, mem_vocabulary_terminals, or_iff_left hmark]
  constructor
  · rintro ⟨lhs, -, name, hname, hissue⟩
    obtain ⟨rhs, hrhs, hname⟩ := List.mem_flatten.mp hname
    refine ⟨lhs, rhs, hrhs, name, hname, ?_⟩
    rcases Vocabulary.nameIssue_eq_some.mp hissue with hmark | ⟨hmark, hnot, hi⟩
    · exact Or.inl hmark
    · obtain ⟨hrules, hterm⟩ := (hnone name hmark).mp hnot
      exact Or.inr ⟨hmark, hrules, hterm, hi⟩
  · rintro ⟨lhs, rhs, hrhs, name, hname, hcause⟩
    refine ⟨lhs, mem_lefts.mpr (List.ne_nil_of_mem hrhs), name, List.mem_flatten.mpr ⟨rhs, hrhs, hname⟩, ?_⟩
    refine Vocabulary.nameIssue_eq_some.mpr (hcause.imp_right ?_)
    rintro ⟨hmark, hrules, hterm, hi⟩
    exact ⟨hmark, (hnone name hmark).mpr ⟨hrules, hterm⟩, hi⟩

theorem mem_issues {i : Issue} : i ∈ d.issues ↔ d.Violates i := by
  have hterminals : i ∈ (d.declared.filter (· ∈ d.lefts)).map .terminalHasRules ↔
      ∃ name ∈ d.terminals, d.alternatives name ≠ [] ∧ i = .terminalHasRules name := by
    simp only [List.mem_map, List.mem_filter, declared, mem_distinct, mem_lefts, decide_eq_true_eq, and_assoc,
      eq_comm (a := i)]
  have hparts : i ∈ d.issues ↔ (d.alternatives d.start = [] ∧ i = .undefinedStart d.start) ∨
      (∃ name ∈ d.terminals, d.alternatives name ≠ [] ∧ i = .terminalHasRules name) ∨
      (d.alternatives endMarker ≠ [] ∧ i = .reserved endMarker) ∨
      ∃ lhs, ∃ rhs ∈ d.alternatives lhs, ∃ name ∈ rhs, name = endMarker ∧ i = .reserved endMarker ∨
        name ≠ endMarker ∧ d.alternatives name = [] ∧ name ∉ d.terminals ∧ i = .unresolved lhs name := by
    rw [← violates_undefinedStart, ← hterminals, ← violates_markHasRules, ← violates_names]
    simp only [issues, mem_distinct, List.mem_append, List.mem_flatMap, List.mem_filterMap, or_assoc]
    rfl
  rw [hparts]
  constructor
  · rintro (⟨h, rfl⟩ | ⟨name, hterm, hrules, rfl⟩ | ⟨h, rfl⟩ | ⟨lhs, rhs, hrhs, name, hname, ⟨rfl, rfl⟩ |
      ⟨hmark, hrules, hterm, rfl⟩⟩)
    · exact .undefinedStart h
    · exact .terminalHasRules name hterm hrules
    · exact .markHasRules h
    · exact .markUsed lhs rhs hrhs hname
    · exact .unresolved lhs rhs name hrhs hname hmark hrules hterm
  · intro h
    cases h with
    | undefinedStart h => exact Or.inl ⟨h, rfl⟩
    | terminalHasRules name hterm hrules => exact Or.inr (Or.inl ⟨name, hterm, hrules, rfl⟩)
    | markHasRules h => exact Or.inr (Or.inr (Or.inl ⟨h, rfl⟩))
    | markUsed lhs rhs hrhs h => exact Or.inr (Or.inr (Or.inr ⟨lhs, rhs, hrhs, _, h, Or.inl ⟨rfl, rfl⟩⟩))
    | unresolved lhs rhs name hrhs hname hmark hrules hterm =>
      exact Or.inr (Or.inr (Or.inr ⟨lhs, rhs, hrhs, name, hname, Or.inr ⟨hmark, hrules, hterm, rfl⟩⟩))

theorem build_eq_error {issues : List Issue} : d.build = .error issues ↔ d.issues ≠ [] ∧ issues = d.issues := by
  unfold build
  split
  · rename_i h
    simp [h]
  · rename_i h
    exact ⟨fun he => ⟨h, (Except.error.inj he).symm⟩, fun he => congrArg Except.error he.2.symm⟩

/-! ### What is read back -/

/-- A grammar that tells all of a draft: its numbers are in order and in range, and stand for the authored names. -/
structure Faithful (d : Draft) (g : Grammar) : Prop where
  wellFormed : g.WellFormed
  eof_name : g.terminals[g.eof]? = some endMarker
  /-- The declared terminals, in order of first declaration, and the end marker last. -/
  terminals : g.terminals = d.declared.filter (· ≠ endMarker) ++ [endMarker]
  /-- The left-hand sides, in order of first rule. -/
  nonterminals : g.nonterminals = d.lefts
  start_name : g.nonterminalName g.start = d.start
  inRange : ∀ p ∈ g.productions, ∀ x ∈ p.rhs, g.InRange x
  mark_unused : ∀ p ∈ g.productions, ∀ x ∈ p.rhs, g.symbolName x ≠ endMarker
  /-- Every production is listed under its left-hand side, and under no other. -/
  owned : ∀ n id, id ∈ (g.productionsOf n).map Prod.fst ↔ ∃ h : id < g.productions.length, g.productions[id].lhs = n
  ascending : ∀ n, ((g.productionsOf n).map Prod.fst).Pairwise (· < ·)
  /-- The lists that are made with the productions are the same. -/
  listed : d.listed = (List.range g.nonterminals.length).map fun n => (g.productionsOf n).map Prod.fst
  productive : ∀ n < g.nonterminals.length, g.productionsOf n ≠ []
  /-- The alternatives of a left-hand side, in order and name by name. -/
  alternatives : ∀ n < g.nonterminals.length,
    (g.productionsOf n).map (fun q => q.2.rhs.map g.symbolName) = d.alternatives (g.nonterminalName n)

/-- The numbers of the productions of a left-hand side, when the first of them all is `first`. -/
private def idsOf (n first : Nat) (ps : List Production) : List ProductionId :=
  (ps.zipIdx first).filterMap fun (p, id) => if p.lhs = n then some id else none

private theorem idsOf_append (n first : Nat) (ps qs : List Production) :
    idsOf n first (ps ++ qs) = idsOf n first ps ++ idsOf n (first + ps.length) qs := by
  rw [idsOf, List.zipIdx_append, List.filterMap_append]
  rfl

private theorem idsOf_of_ne {n first : Nat} {ps : List Production} (h : ∀ p ∈ ps, p.lhs ≠ n) : idsOf n first ps = [] := by
  refine List.filterMap_eq_nil_iff.mpr ?_
  rintro ⟨p, id⟩ hp
  exact if_neg (h p (List.fst_mem_of_mem_zipIdx hp))

private theorem idsOf_self (n first : Nat) (f : List String → List Symbol) (alternatives : List (List String)) :
    idsOf n first (alternatives.map fun rhs => ⟨n, f rhs⟩) = List.range' first alternatives.length := by
  induction alternatives generalizing first with
  | nil => rfl
  | cons rhs alternatives ih =>
    have hrest := ih (first + 1)
    rw [idsOf] at hrest
    rw [idsOf, List.map_cons, List.zipIdx_cons, List.length_cons, List.range'_succ, ← hrest]
    simp

/-- Each left-hand side gets the numbers of its productions, here with `m` left-hand sides before all of them. -/
private theorem numbered_eq (a : String → List (List String)) (f : List String → List Symbol) (lefts : List String)
    (m first : Nat) : numbered first (lefts.map a) = (List.range' m lefts.length).map fun n =>
      idsOf n first ((lefts.zipIdx m).flatMap fun (lhs, k) => (a lhs).map fun rhs => ⟨k, f rhs⟩) := by
  induction lefts generalizing m first with
  | nil => rfl
  | cons lhs lefts ih =>
    have hlater : ∀ p ∈ (lefts.zipIdx (m + 1)).flatMap fun (lhs, k) => (a lhs).map fun rhs => (⟨k, f rhs⟩ : Production),
        p.lhs ≠ m := by
      intro p hp
      obtain ⟨⟨later, k⟩, hk, hp⟩ := List.mem_flatMap.mp hp
      obtain ⟨rhs, -, rfl⟩ := List.mem_map.mp hp
      exact Nat.ne_of_gt (List.mem_zipIdx hk).1
    rw [List.map_cons, numbered, List.length_cons, List.range'_succ, List.map_cons, List.zipIdx_cons, List.flatMap_cons]
    congr 1
    · rw [idsOf_append, idsOf_self, idsOf_of_ne hlater, List.append_nil]
    · rw [ih (m + 1)]
      refine List.map_congr_left fun n hn => ?_
      have hfirst : ∀ p ∈ (a lhs).map fun rhs => (⟨m, f rhs⟩ : Production), p.lhs ≠ n := by
        intro p hp
        obtain ⟨rhs, -, rfl⟩ := List.mem_map.mp hp
        exact Nat.ne_of_lt (List.mem_range'_1.mp hn).1
      rw [idsOf_append, idsOf_of_ne hfirst, List.nil_append, List.length_map]

/-- The lists that are made with the productions hold what `Grammar.productionsOf` finds. -/
private theorem listed_eq (d : Draft) :
    d.listed = (List.range d.lefts.length).map fun n => (d.grammar.productionsOf n).map Prod.fst := by
  have hids : ∀ n, (d.grammar.productionsOf n).map Prod.fst = idsOf n 0 d.productions := by
    intro n
    rw [Grammar.productionsOf, List.map_filterMap, idsOf]
    refine List.filterMap_congr ?_
    rintro ⟨p, id⟩ -
    by_cases hp : p.lhs = n <;> simp [hp]
  simp only [hids, List.range_eq_range']
  exact numbered_eq d.alternatives (List.filterMap d.vocabulary.resolve) d.lefts 0 0

/-- A name of an alternative is the name of its symbol. -/
theorem symbolName_symbolOf {name : String} (h : name ∈ d.lefts ∨ name ∈ d.vocabulary.terminals) :
    d.grammar.symbolName (d.vocabulary.symbolOf name) = name := by
  unfold Vocabulary.symbolOf
  split
  · rename_i hl
    exact nonterminalName_idxOf hl
  · rename_i hl
    exact terminalName_idxOf (h.resolve_left hl)

namespace Legal

variable (h : d.Legal)

include h

private theorem map_symbolName {lhs : String} {rhs : List String} (hrhs : rhs ∈ d.alternatives lhs) :
    (rhs.map d.vocabulary.symbolOf).map d.grammar.symbolName = rhs := by
  rw [List.map_map]
  refine (List.map_congr_left fun name hname => ?_).trans (List.map_id' rhs)
  obtain ⟨-, hor⟩ := h.name_mem lhs rhs hrhs name hname
  exact symbolName_symbolOf (hor.imp_right fun ht => mem_vocabulary_terminals.mpr (Or.inl ht))

theorem faithful : d.Faithful d.grammar where
  wellFormed := h.wellFormed
  eof_name := by simp [Grammar.eof, grammar, vocabulary]
  terminals := rfl
  nonterminals := rfl
  start_name := nonterminalName_idxOf h.start_mem
  inRange := fun p hp => h.wellFormed.inRange_rhs hp
  mark_unused := by
    intro p hp x hx
    obtain ⟨lhs, rhs, hrhs, rfl⟩ := h.mem_productions.mp hp
    have hname : d.grammar.symbolName x ∈ rhs := h.map_symbolName hrhs ▸ List.mem_map_of_mem hx
    exact (h.name_mem lhs rhs hrhs _ hname).1
  owned := fun n id => Grammar.mem_map_fst_productionsOf
  ascending := fun n => Grammar.pairwise_productionsOf n
  listed := listed_eq d
  productive := by
    intro n hn
    obtain ⟨p, hp, hlhs⟩ := h.wellFormed.productive n hn
    obtain ⟨id, hid⟩ := d.grammar.exists_mem_productionsOf.mpr ⟨hp, hlhs⟩
    exact List.ne_nil_of_mem hid
  alternatives := by
    intro n hn
    have hleft := nonterminalName_mem hn
    have hidx : d.lefts.idxOf (d.grammar.nonterminalName n) = n := idxOf_getD d.nodup_lefts hn ""
    have hof := h.productionsOf hleft
    rw [hidx] at hof
    have hmap : (d.grammar.productionsOf n).map (fun q => q.2.rhs.map d.grammar.symbolName) =
        ((d.grammar.productionsOf n).map Prod.snd).map fun p => p.rhs.map d.grammar.symbolName := by
      rw [List.map_map]
      rfl
    rw [hmap, hof, List.map_map]
    exact (List.map_congr_left fun rhs hrhs => h.map_symbolName hrhs).trans (List.map_id' _)

end Legal

/-- Whatever the steps of authoring are, and in whatever order: the draft has what they add; it builds unless it
breaks a rule, and its issues are exactly what it breaks, each once; and the grammar that it builds tells all of it. -/
theorem authored_builds_or_tells_issues (start : String) (edits : List Edit) :
    (authored start edits).Tells start edits ∧
    ((∃ issues, (authored start edits).build = .error issues) ↔ ∃ i, (authored start edits).Violates i) ∧
    (∀ issues, (authored start edits).build = .error issues →
      issues.Nodup ∧ ∀ i, i ∈ issues ↔ (authored start edits).Violates i) ∧
    ∀ g, (authored start edits).build = .ok g → (authored start edits).Faithful g := by
  refine ⟨authored_tells start edits, ?_, ?_, ?_⟩
  · simp only [build_eq_error, exists_and_left, exists_eq, and_true, ← mem_issues]
    exact ⟨List.exists_mem_of_ne_nil _, fun ⟨_, hi⟩ => List.ne_nil_of_mem hi⟩
  · intro issues hb
    obtain ⟨-, rfl⟩ := build_eq_error.mp hb
    exact ⟨nodup_distinct _, fun i => mem_issues⟩
  · intro g hb
    obtain ⟨hlegal, rfl⟩ := build_eq_ok.mp hb
    exact hlegal.faithful

/-- A list of names, authored with declarations between the rules; the end marker is declared too. -/
def nameList : List Edit :=
  [.rule "names" ["name", "rest"], .declare ["$", "name"], .rule "rest" [], .declare ["name", ","],
    .rule "rest" [",", "names"]]

/-- It builds from its first left-hand side; nothing builds from a start symbol without rules. -/
theorem authored_builds_or_tells_issues_nameList :
    (∃ g, (authored "names" nameList).build = .ok g ∧ g.terminals = ["name", ",", "$"] ∧
      (authored "names" nameList).Faithful g) ∧
    ∃ issues, (authored "items" nameList).build = .error issues ∧ issues.Nodup ∧
      ∀ i, i ∈ issues ↔ (authored "items" nameList).Violates i := by
  have hok : (authored "names" nameList).build = .ok (authored "names" nameList).grammar := by decide +kernel
  have herror : (authored "items" nameList).build = .error [.undefinedStart "items"] := by decide +kernel
  obtain ⟨-, -, -, hfaithful⟩ := authored_builds_or_tells_issues "names" nameList
  obtain ⟨-, -, hissues, -⟩ := authored_builds_or_tells_issues "items" nameList
  exact ⟨⟨_, hok, by decide +kernel, hfaithful _ hok⟩, _, herror, hissues _ herror⟩

end Draft

end Predictive
