import Predictive.Proofs.Grammar.Authoring
import Predictive.Proofs.Grammar.Bnf

/-!
# Grammars of BNF rules

In BNF nothing is declared: whether a bracketed name is a nonterminal depends on whether it has a rule, which may come
later or be one of several. A term of an alternative stands for a terminal if it is a literal that is not empty, or a
bracketed name without rules (`Bnf.IsTerminal`). So every term stands for something, and no name is left unresolved.

What can go wrong is that a given start symbol has no rules, that a literal is the end marker, or that a literal spells a
name that has rules (`Bnf.violates_iff`). If nothing does, the grammar has the left-hand sides as nonterminals and the
terms that stand for terminals as terminals, each in order of first appearance, and all alternatives of a left-hand side
in the order of the text (`Bnf.Tells`, `Bnf.grammar_of_rules`).
-/

namespace Predictive

/-! ### Lists -/

/-- A list in which each member stands for one or more copies of its image has the images as distinct members. -/
private theorem distinct_flatMap_copies {α β γ : Type} [DecidableEq β] (f : α → β) (copies : α → List γ) {l : List α}
    (h : ∀ a ∈ l, copies a ≠ []) : distinct (l.flatMap fun a => (copies a).map fun _ => f a) = distinct (l.map f) := by
  -- one more copy of a member in front changes nothing
  have htwice : ∀ (b : β) (l : List β), distinct (b :: b :: l) = distinct (b :: l) := by
    intro b l
    simp [distinct]
  have hcopies : ∀ (b : β) (m : List γ) (l : List β), m ≠ [] → distinct ((m.map fun _ => b) ++ l) = distinct (b :: l) := by
    intro b m l hm
    induction m with
    | nil => exact absurd rfl hm
    | cons c m ih =>
      cases m with
      | nil => rfl
      | cons c' m =>
        have hrest := ih (List.cons_ne_nil c' m)
        simp only [List.map_cons, List.cons_append] at hrest ⊢
        rw [htwice, hrest]
  induction l with
  | nil => rfl
  | cons a l ih =>
    rw [List.flatMap_cons, hcopies (f a) (copies a) _ (h a List.mem_cons_self), List.map_cons, distinct, distinct,
      ih fun b hb => h b (List.mem_cons_of_mem a hb)]

/-- To keep the images of some members is to keep these members and take their images. -/
private theorem filterMap_eq_map_filter {α β : Type} {f : α → Option β} {p : α → Prop} [DecidablePred p] {g : α → β}
    (h : ∀ a, f a = if p a then some (g a) else none) (l : List α) : l.filterMap f = (l.filter p).map g := by
  induction l with
  | nil => rfl
  | cons a l ih =>
    rw [List.filterMap_cons, List.filter_cons, h a, ih]
    by_cases ha : p a
    · simp [ha]
    · simp [ha]

namespace Bnf

/-! ### Terms -/

theorem bracketed_inj {s t : String} : bracketed s = bracketed t ↔ s = t := by
  simp [bracketed, ← String.toList_inj]

theorem bracketed_ne_endMarker (s : String) : bracketed s ≠ endMarker := by
  intro h
  have hlist := congrArg String.toList h
  simp [bracketed, endMarker] at hlist

theorem bracketed_ne_empty (s : String) : bracketed s ≠ "" := by
  intro h
  have hlist := congrArg String.toList h
  simp [bracketed] at hlist

/-- All terms of the alternatives, in the order of the text. -/
def terms (rules : List Rule) : List Term := rules.flatMap fun r => r.alternatives.flatten

/-- The term stands for a terminal: it is a literal that is not empty, or a bracketed name that no rule defines. -/
def IsTerminal (rules : List Rule) : Term → Prop
  | .literal text => text ≠ ""
  | .name text => ∀ r ∈ rules, r.lhs ≠ text

instance (rules : List Rule) : DecidablePred (IsTerminal rules)
  | .literal text => inferInstanceAs (Decidable (text ≠ ""))
  | .name text => inferInstanceAs (Decidable (∀ r ∈ rules, r.lhs ≠ text))

/-- The alternatives of a left-hand side, which may have several rules, in the order of the text. -/
def alternativesOf (rules : List Rule) (lhs : String) : List (List Term) :=
  (rules.filter fun r => bracketed r.lhs = lhs).flatMap Rule.alternatives

/-- The names in an alternative: those of its terms, without empty literals. -/
def names (alternative : List Term) : List String := (alternative.filter (· ≠ .literal "")).map Term.display

theorem mem_terms {rules : List Rule} {t : Term} : t ∈ terms rules ↔ ∃ r ∈ rules, ∃ a ∈ r.alternatives, t ∈ a := by
  simp only [terms, List.mem_flatMap, List.mem_flatten]

theorem mem_names {alternative : List Term} {name : String} :
    name ∈ names alternative ↔ ∃ t ∈ alternative, t ≠ .literal "" ∧ t.display = name := by
  simp only [names, List.mem_map, List.mem_filter, decide_eq_true_eq, and_assoc]

/-! ### The draft of rules -/

section Draft

variable {rules : List Rule} {start : Option String}

theorem filterMap_symbol? (alternative : List Term) : alternative.filterMap Term.symbol? = names alternative := by
  refine filterMap_eq_map_filter (fun t => ?_) alternative
  cases t with
  | literal text => by_cases h : text = "" <;> simp [Term.symbol?, Term.display, h]
  | name text => simp [Term.symbol?, Term.display]

theorem alternatives_toDraft (lhs : String) :
    (toDraft rules start).alternatives lhs = (alternativesOf rules lhs).map names := by
  simp only [Draft.alternatives, toDraft, filterMap_symbol?, alternativesOf]
  induction rules with
  | nil => rfl
  | cons r rules ih =>
    rw [List.flatMap_cons, List.filterMap_append, ih, List.filterMap_map, List.filter_cons]
    by_cases hr : bracketed r.lhs = lhs
    · simp [hr]
    · simp [hr]

theorem terminals_toDraft : (toDraft rules start).terminals =
    distinct (((terms rules).filter (IsTerminal rules)).map Term.display) := by
  show inferredTerminals rules = _
  rw [inferredTerminals, ← List.filterMap_flatMap]
  congr 1
  refine filterMap_eq_map_filter (fun t => ?_) (terms rules)
  cases t with
  | literal text => by_cases h : text = "" <;> simp [IsTerminal, Term.display, h]
  | name text =>
    by_cases h : ∃ r ∈ rules, r.lhs = text
    · have hnot : ¬ IsTerminal rules (.name text) := fun hall => by
        obtain ⟨r, hr, heq⟩ := h
        exact hall r hr heq
      simp [definedNames, bracketed_inj, h, hnot]
    · have hall : IsTerminal rules (.name text) := fun r hr heq => h ⟨r, hr, heq⟩
      simp [definedNames, bracketed_inj, h, hall, Term.display]

theorem mem_terminals_toDraft {name : String} : name ∈ (toDraft rules start).terminals ↔
    ∃ t ∈ terms rules, IsTerminal rules t ∧ t.display = name := by
  simp only [terminals_toDraft, mem_distinct, List.mem_map, List.mem_filter, decide_eq_true_eq, and_assoc]

/-- A name in an alternative is that of a term. -/
private theorem exists_term {lhs name : String} {rhs : List String}
    (hrhs : rhs ∈ (toDraft rules start).alternatives lhs) (hname : name ∈ rhs) :
    ∃ t ∈ terms rules, t ≠ .literal "" ∧ t.display = name := by
  rw [alternatives_toDraft, List.mem_map] at hrhs
  obtain ⟨a, ha, rfl⟩ := hrhs
  obtain ⟨r, hr, ha⟩ := List.mem_flatMap.mp ha
  obtain ⟨t, ht, hempty, hdisplay⟩ := mem_names.mp hname
  exact ⟨t, mem_terms.mpr ⟨r, (List.mem_filter.mp hr).1, a, ha, ht⟩, hempty, hdisplay⟩

/-- A literal that is not empty is a terminal, and is used. -/
private theorem literal_used {text : String} (hempty : text ≠ "") (ht : .literal text ∈ terms rules) :
    text ∈ (toDraft rules start).terminals ∧ ∃ lhs, ∃ rhs ∈ (toDraft rules start).alternatives lhs, text ∈ rhs := by
  obtain ⟨r, hr, a, ha, hta⟩ := mem_terms.mp ht
  refine ⟨mem_terminals_toDraft.mpr ⟨_, ht, hempty, rfl⟩, bracketed r.lhs, names a, ?_, ?_⟩
  · rw [alternatives_toDraft]
    refine List.mem_map_of_mem (List.mem_flatMap.mpr ⟨r, ?_, ha⟩)
    simp [hr]
  · exact mem_names.mpr ⟨_, hta, by simpa using hempty, rfl⟩

variable (halt : ∀ r ∈ rules, r.alternatives ≠ [])

include halt

theorem lefts_toDraft : (toDraft rules start).lefts = distinct (rules.map fun r => bracketed r.lhs) := by
  rw [Draft.lefts, toDraft, List.map_flatMap, ← distinct_flatMap_copies _ Rule.alternatives halt]
  simp only [List.map_map, Function.comp_def]

/-- A name has alternatives if a rule defines it. -/
theorem alternatives_toDraft_ne_nil {name : String} :
    (toDraft rules start).alternatives name ≠ [] ↔ ∃ r ∈ rules, bracketed r.lhs = name := by
  rw [← Draft.mem_lefts, lefts_toDraft halt, mem_distinct, List.mem_map]

/-- What a draft of rules can break. -/
theorem violates_iff (hne : rules ≠ []) {i : Issue} : (toDraft rules start).Violates i ↔
    (∃ name, start = some name ∧ (∀ r ∈ rules, bracketed r.lhs ≠ name) ∧ i = .undefinedStart name) ∨
    (.literal endMarker ∈ terms rules ∧ i = .reserved endMarker) ∨
    ∃ r ∈ rules, .literal (bracketed r.lhs) ∈ terms rules ∧ i = .terminalHasRules (bracketed r.lhs) := by
  constructor
  · intro h
    cases h with
    | undefinedStart h =>
      have hno : ∀ r ∈ rules, bracketed r.lhs ≠ (toDraft rules start).start := by
        intro r hr heq
        exact (alternatives_toDraft_ne_nil halt).mpr ⟨r, hr, heq⟩ h
      cases start with
      | some name => exact Or.inl ⟨name, rfl, hno, rfl⟩
      | none =>
        -- without a given start the first rule is asked for, and it is there
        obtain ⟨r, rest, rfl⟩ := List.exists_cons_of_ne_nil hne
        exact absurd rfl (hno r List.mem_cons_self)
    | terminalHasRules name hname hrules =>
      obtain ⟨r, hr, rfl⟩ := (alternatives_toDraft_ne_nil halt).mp hrules
      obtain ⟨t, ht, hterminal, hdisplay⟩ := mem_terminals_toDraft.mp hname
      cases t with
      | literal text =>
        obtain rfl : text = bracketed r.lhs := hdisplay
        exact Or.inr (Or.inr ⟨r, hr, ht, rfl⟩)
      | name text => exact absurd (bracketed_inj.mp hdisplay).symm (hterminal r hr)
    | markHasRules h =>
      obtain ⟨r, -, heq⟩ := (alternatives_toDraft_ne_nil halt).mp h
      exact absurd heq (bracketed_ne_endMarker r.lhs)
    | markUsed lhs rhs hrhs h =>
      obtain ⟨t, ht, -, hdisplay⟩ := exists_term hrhs h
      cases t with
      | literal text =>
        obtain rfl : text = endMarker := hdisplay
        exact Or.inr (Or.inl ⟨ht, rfl⟩)
      | name text => exact absurd hdisplay (bracketed_ne_endMarker text)
    | unresolved lhs rhs name hrhs hname hmark hrules hnot =>
      -- a term that no rule defines stands for a terminal
      obtain ⟨t, ht, hempty, hdisplay⟩ := exists_term hrhs hname
      refine absurd (mem_terminals_toDraft.mpr ⟨t, ht, ?_, hdisplay⟩) hnot
      cases t with
      | literal text => exact fun h => hempty (congrArg Term.literal h)
      | name text =>
        rintro r hr rfl
        exact (alternatives_toDraft_ne_nil halt).mpr ⟨r, hr, hdisplay⟩ hrules
  · rintro (⟨name, rfl, hno, rfl⟩ | ⟨ht, rfl⟩ | ⟨r, hr, ht, rfl⟩)
    · refine .undefinedStart (Classical.byContradiction fun h => ?_)
      obtain ⟨r, hr, heq⟩ := (alternatives_toDraft_ne_nil halt).mp h
      exact hno r hr heq
    · obtain ⟨-, lhs, rhs, hrhs, hmem⟩ := literal_used (by decide) ht
      exact .markUsed lhs rhs hrhs hmem
    · obtain ⟨hmem, -⟩ := literal_used (bracketed_ne_empty r.lhs) ht
      exact .terminalHasRules _ hmem ((alternatives_toDraft_ne_nil halt).mpr ⟨r, hr, rfl⟩)

end Draft

/-! ### The grammar of rules -/

/-- The grammar tells all of the rules: each left-hand side is a nonterminal, each other term that is not empty is a
terminal, and the alternatives are kept. -/
structure Tells (rules : List Rule) (start : Option String) (g : Grammar) : Prop where
  wellFormed : g.WellFormed
  inRange : ∀ p ∈ g.productions, ∀ x ∈ p.rhs, g.InRange x
  /-- The left-hand sides, in order of first appearance. -/
  nonterminals : g.nonterminals = distinct (rules.map fun r => bracketed r.lhs)
  /-- The literals and the names without rules, in order of first appearance, and the end marker last. -/
  terminals : g.terminals = distinct (((terms rules).filter (IsTerminal rules)).map Term.display) ++ [endMarker]
  /-- The given start symbol, or else the first left-hand side. -/
  start_name : some (g.nonterminalName g.start) = start.or (rules.head?.map fun r => bracketed r.lhs)
  /-- All alternatives of a left-hand side, in the order of the text. -/
  alternatives : ∀ n < g.nonterminals.length, (g.productionsOf n).map (fun q => q.2.rhs.map g.symbolName) =
    (alternativesOf rules (g.nonterminalName n)).map names

private theorem tells_of_build {rules : List Rule} {start : Option String} {g : Grammar} (hne : rules ≠ [])
    (halt : ∀ r ∈ rules, r.alternatives ≠ []) (hb : (toDraft rules start).build = .ok g) : Tells rules start g := by
  obtain ⟨hlegal, rfl⟩ := Draft.build_eq_ok.mp hb
  have hfaithful := hlegal.faithful
  refine ⟨hfaithful.wellFormed, hfaithful.inRange, ?_, ?_, ?_, ?_⟩
  · rw [hfaithful.nonterminals, lefts_toDraft halt]
  · -- no literal is the end marker, or the draft would not be legal
    have hmark : endMarker ∉ (toDraft rules start).terminals := by
      intro hmem
      obtain ⟨t, ht, -, hdisplay⟩ := mem_terminals_toDraft.mp hmem
      cases t with
      | literal text =>
        obtain rfl : text = endMarker := hdisplay
        have hviolates : (toDraft rules start).Violates (.reserved endMarker) :=
          (violates_iff halt hne).mpr (Or.inr (Or.inl ⟨ht, rfl⟩))
        have hissue := Draft.mem_issues.mpr hviolates
        rw [Draft.issues_eq_nil.mpr hlegal] at hissue
        simp at hissue
      | name text => exact bracketed_ne_endMarker text hdisplay
    have hdeclared : (toDraft rules start).declared = (toDraft rules start).terminals := by
      rw [Draft.declared, terminals_toDraft]
      exact distinct_eq_self (nodup_distinct _)
    rw [hfaithful.terminals, hdeclared, ← @terminals_toDraft rules start, List.filter_eq_self.mpr]
    intro name hname
    rw [decide_eq_true_eq]
    exact fun heq => hmark (heq ▸ hname)
  · rw [hfaithful.start_name]
    cases start with
    | some name => rfl
    | none =>
      obtain ⟨r, rest, rfl⟩ := List.exists_cons_of_ne_nil hne
      rfl
  · intro n hn
    rw [hfaithful.alternatives n hn, alternatives_toDraft]

/-- A list of rules with a further one in front that has an alternative. -/
private theorem alternatives_cons {lhs : String} {done : List (List Term)} {current : List Term} {rest : List Rule}
    (h : ∀ r ∈ rest, r.alternatives ≠ []) : (⟨lhs, done ++ [current]⟩ :: rest : List Rule) ≠ [] ∧
      ∀ r ∈ (⟨lhs, done ++ [current]⟩ :: rest : List Rule), r.alternatives ≠ [] := by
  refine ⟨List.cons_ne_nil _ _, fun r hr => ?_⟩
  rcases List.mem_cons.mp hr with rfl | hr
  · simp
  · exact h r hr

private theorem alternatives_of_body {lhs : String} {done : List (List Term)} {current : List Term}
    {tokens : List Token} {rules : List Rule} (h : body lhs done current tokens = some rules) :
    rules ≠ [] ∧ ∀ r ∈ rules, r.alternatives ≠ [] := by
  fun_induction body lhs done current tokens generalizing rules with
  | case3 lhs done current text rest ih => exact ih h
  | case6 lhs done current text rest hnext ih => exact ih h
  | case8 lhs done current rest hcurrent ih => exact ih h
  | case5 lhs done current next rest hcurrent ih =>
    obtain ⟨further, hfurther, rfl⟩ := Option.map_eq_some_iff.mp h
    exact alternatives_cons (ih hfurther).2
  | case12 lhs done current next rest hcurrent ih =>
    obtain ⟨further, hfurther, rfl⟩ := Option.map_eq_some_iff.mp h
    exact alternatives_cons (ih hfurther).2
  | case2 lhs done current hcurrent =>
    obtain rfl := Option.some.inj h
    exact alternatives_cons (by simp)
  | case10 lhs done current hcurrent =>
    obtain rfl := Option.some.inj h
    exact alternatives_cons (by simp)
  | _ => simp at h

/-- Rules that are read from a text are not none, and each has an alternative. -/
theorem alternatives_of_read? {text : String} {rules : List Rule} (h : read? text = some rules) :
    rules ≠ [] ∧ ∀ r ∈ rules, r.alternatives ≠ [] := by
  obtain ⟨tokens, -, hrules⟩ := Option.bind_eq_some_iff.mp h
  unfold rules? at hrules
  split at hrules
  · exact alternatives_of_body hrules
  · simp at hrules

private theorem outcome_eq_error {d : Draft} {e : Error} :
    (Grammar.ofDraft d).outcome = .error e ↔ d.issues ≠ [] ∧ e = .grammar d.issues := by
  simp only [Grammar.ofDraft_eq_error, Draft.build_eq_error]
  constructor
  · rintro ⟨issues, ⟨hissues, rfl⟩, rfl⟩
    exact ⟨hissues, rfl⟩
  · rintro ⟨hissues, rfl⟩
    exact ⟨_, ⟨hissues, rfl⟩, rfl⟩

/-- Rules never leave a name unresolved. They are rejected exactly for a start symbol that is given but not defined, or
for a literal that is the end marker or that spells a defined name. Otherwise the grammar has each defined name as a
nonterminal, everything else that is spelled as a terminal, and all alternatives. That goes for the grammar of a text
whatever the reader of the rules, and nothing is asked of the rules that `read?` does not see to. -/
theorem grammar_of_rules {rules : List Rule} (hne : rules ≠ []) (halt : ∀ r ∈ rules, r.alternatives ≠ [])
    (start : Option String) :
    (∀ e, (Grammar.ofDraft (toDraft rules start)).outcome = .error e → ∃ issues, e = .grammar issues ∧
      ∀ lhs symbol, .unresolved lhs symbol ∉ issues) ∧
    ((∃ e, (Grammar.ofDraft (toDraft rules start)).outcome = .error e) ↔
      (∃ name, start = some name ∧ ∀ r ∈ rules, bracketed r.lhs ≠ name) ∨
      .literal endMarker ∈ terms rules ∨ ∃ r ∈ rules, .literal (bracketed r.lhs) ∈ terms rules) ∧
    (∀ g, (Grammar.ofDraft (toDraft rules start)).outcome = .ok g → Tells rules start g) ∧
    (∀ (read : Reader) text, read text = some rules →
      (Grammar.ofBnf read text start).outcome = (Grammar.ofDraft (toDraft rules start)).outcome) ∧
    ∀ text read, read? text = some read → read ≠ [] ∧ ∀ r ∈ read, r.alternatives ≠ [] := by
  refine ⟨?_, ?_, ?_, fun _ _ => Grammar.outcome_ofBnf, fun _ _ => alternatives_of_read?⟩
  · intro e he
    obtain ⟨-, rfl⟩ := outcome_eq_error.mp he
    refine ⟨_, rfl, fun lhs symbol hmem => ?_⟩
    rcases (violates_iff halt hne).mp (Draft.mem_issues.mp hmem) with ⟨_, _, _, h⟩ | ⟨_, h⟩ | ⟨_, _, _, h⟩ <;> cases h
  · simp only [outcome_eq_error, exists_and_left, exists_eq, and_true]
    constructor
    · intro h
      obtain ⟨i, hi⟩ := List.exists_mem_of_ne_nil _ h
      rcases (violates_iff halt hne).mp (Draft.mem_issues.mp hi) with ⟨name, hstart, hno, -⟩ | ⟨ht, -⟩ | ⟨r, hr, ht, -⟩
      · exact Or.inl ⟨name, hstart, hno⟩
      · exact Or.inr (Or.inl ht)
      · exact Or.inr (Or.inr ⟨r, hr, ht⟩)
    · have hissue : ∀ i, (toDraft rules start).Violates i → (toDraft rules start).issues ≠ [] :=
        fun i hi => List.ne_nil_of_mem (Draft.mem_issues.mpr hi)
      rintro (⟨name, hstart, hno⟩ | ht | ⟨r, hr, ht⟩)
      · exact hissue _ ((violates_iff halt hne).mpr (Or.inl ⟨name, hstart, hno, rfl⟩))
      · exact hissue _ ((violates_iff halt hne).mpr (Or.inr (Or.inl ⟨ht, rfl⟩)))
      · exact hissue _ ((violates_iff halt hne).mpr (Or.inr (Or.inr ⟨r, hr, ht, rfl⟩)))
  · intro g hg
    exact tells_of_build hne halt (Grammar.ofDraft_eq_ok.mp hg)

/-- Lists of items: `<list> ::= <item> <rest>`, `<rest> ::= "," <item> <rest> | ""`, and once more `<list> ::= ""`. -/
def listRules : List Rule :=
  [⟨"list", [[.name "item", .name "rest"]]⟩,
    ⟨"rest", [[.literal ",", .name "item", .name "rest"], [.literal ""]]⟩, ⟨"list", [[.literal ""]]⟩]

/-- An item has no rule, so it is a terminal, and the grammar does not start with it. The second rule of lists comes late
and is kept. -/
theorem grammar_of_rules_listRules :
    (∃ g, (Grammar.ofDraft (toDraft listRules none)).outcome = .ok g ∧ g.nonterminals = ["<list>", "<rest>"] ∧
      g.terminals = ["<item>", ",", "$"] ∧
      (g.productionsOf 0).map (fun q => q.2.rhs.map g.symbolName) = [["<item>", "<rest>"], []]) ∧
    ∃ e, (Grammar.ofDraft (toDraft listRules (some "<item>"))).outcome = .error e := by
  have hne : listRules ≠ [] := by decide
  have halt : ∀ r ∈ listRules, r.alternatives ≠ [] := by decide
  obtain ⟨-, -, htells, -, -⟩ := grammar_of_rules hne halt none
  obtain ⟨-, herror, -, -, -⟩ := grammar_of_rules hne halt (some "<item>")
  constructor
  · obtain ⟨g, hg⟩ : ∃ g, (Grammar.ofDraft (toDraft listRules none)).outcome = .ok g :=
      ⟨_, Grammar.ofDraft_eq_ok.mpr (Draft.build_eq_ok.mpr ⟨Draft.issues_eq_nil.mp (by decide +kernel), rfl⟩)⟩
    have ht := htells g hg
    have hnonterminals : g.nonterminals = ["<list>", "<rest>"] := ht.nonterminals.trans (by decide +kernel)
    have hlist : g.nonterminalName 0 = "<list>" := by simp [Grammar.nonterminalName, hnonterminals]
    refine ⟨g, hg, hnonterminals, ht.terminals.trans (by decide +kernel), ?_⟩
    rw [ht.alternatives 0 (by simp [hnonterminals]), hlist]
    decide +kernel
  · exact herror.mpr (Or.inl ⟨"<item>", rfl, by decide⟩)

end Bnf

end Predictive
