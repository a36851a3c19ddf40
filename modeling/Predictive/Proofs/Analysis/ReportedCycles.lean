import Predictive.Proofs.Analysis.LeftRecursion

/-!
# Which cycles are reported

Each nonterminal is evaluated once. A cycle is met where its last step leads to a nonterminal that is still open, so a
cycle that comes back by way of a nonterminal that is done already is not met. Nor is one that begins behind what
vanishes, if that was evaluated while its own cycle was open. So not every cycle is reported
(`FirstSets.not_reports_every_cycle`).

What is met of a cycle is a step of it. Take cycles along first symbols, where nothing has to vanish. When a nonterminal
is done, each nonterminal that one of its alternatives begins with was done before it, or was open and is recorded with
it (`FirstPass.Traced`). On a cycle not every step can lead to what was done before. So the grammar is
refused, and some reported path holds both ends of a step of the cycle (`FirstSets.reports_on_every_cycle`); direct
recursion is reported as it is.
-/

namespace Predictive

/-- An alternative of `a` begins with `b`. -/
def Grammar.Opens (g : Grammar) (a b : Nonterminal) : Prop :=
  ∃ p ∈ g.productions, p.lhs = a ∧ ∃ rest, p.rhs = .nonterminal b :: rest

theorem Grammar.Opens.leftCorner {g : Grammar} {a b : Nonterminal} (h : g.Opens a b) : g.LeftCorner a b := by
  obtain ⟨p, hp, hlhs, rest, hrhs⟩ := h
  exact ⟨p, hp, [], rest, hlhs, hrhs, Grammar.vanishes_nil⟩

namespace FirstPass

variable {g : Grammar} {fuel : Nat} {stack : List Nonterminal} {a b n : Nonterminal} {s : FirstPass}
  {cycles : List (List Nonterminal)} {done : List (Nonterminal × FirstSet)}

/-! ### What is recorded -/

/-- A cycle is recorded that holds both, and nothing else if they are one. -/
def Recorded (cycles : List (List Nonterminal)) (a b : Nonterminal) : Prop :=
  ∃ c ∈ cycles, a ∈ c ∧ b ∈ c ∧ (a = b → ∀ m ∈ c, m = a)

theorem Recorded.mono {more : List (List Nonterminal)} (h : Recorded cycles a b) (hsub : cycles ⊆ more) :
    Recorded more a b := by
  obtain ⟨c, hc, hboth⟩ := h
  exact ⟨c, hsub hc, hboth⟩

private theorem cycles_subset_record (s : FirstPass) (cycle : List Nonterminal) :
    s.cycles ⊆ (s.record cycle).cycles := by
  unfold record
  split
  · exact List.Subset.refl _
  · exact List.subset_append_left _ _

theorem cycles_subset_visit : s.cycles ⊆ (visit g fuel stack n s).2.cycles := by
  intro c hc
  exact visit_keeps_cycles (c ∈ ·) (fun s cycle h => cycles_subset_record s cycle h) hc

private theorem exists_mem_record (s : FirstPass) (cycle : List Nonterminal) :
    ∃ c ∈ (s.record cycle).cycles, ∀ m, m ∈ c ↔ m ∈ cycle := by
  unfold record
  by_cases hknown : s.cycles.any (sameMembers cycle) = true
  · rw [if_pos hknown]
    obtain ⟨c, hc, hsame⟩ := List.any_eq_true.mp hknown
    exact ⟨c, hc, fun m => (sameMembers_iff.mp hsame m).symm⟩
  · rw [if_neg hknown]
    exact ⟨cycle, by simp, fun _ => Iff.rfl⟩

/-- A step from the nonterminal opened last to an open one is recorded. -/
private theorem recorded_cycleAt (hb : b ∈ a :: stack) :
    Recorded (s.record (cycleAt (a :: stack) b)).cycles a b := by
  obtain ⟨c, hc, hmem⟩ := exists_mem_record s (cycleAt (a :: stack) b)
  refine ⟨c, hc, (hmem a).mpr ?_, (hmem b).mpr (by simp [cycleAt]), ?_⟩
  · by_cases hab : a = b <;> simp [cycleAt, hab]
  · rintro rfl m hm
    simpa [cycleAt] using (hmem m).mp hm

/-! ### Steps from what is done -/

/-- The step from `a` leads to what is done, or is recorded. -/
def Covered (s : FirstPass) (a b : Nonterminal) : Prop := (∃ f, s.done.lookup b = some f) ∨ Recorded s.cycles a b

theorem Covered.visit (h : s.Covered a b) : (visit g fuel stack n s).2.Covered a b := by
  rcases h with ⟨f, hf⟩ | hrecorded
  · exact Or.inl ⟨f, lookup_visit hf⟩
  · exact Or.inr (hrecorded.mono cycles_subset_visit)

/-- Every step along first symbols from a nonterminal that is done leads to one done before it, or is recorded. -/
inductive Traced (g : Grammar) (cycles : List (List Nonterminal)) : List (Nonterminal × FirstSet) → Prop where
  | nil : Traced g cycles []
  | cons {done : List (Nonterminal × FirstSet)} {a : Nonterminal} {f : FirstSet} (hs : Traced g cycles done)
    (hsteps : ∀ b, g.Opens a b → Covered ⟨done, cycles⟩ a b) : Traced g cycles ((a, f) :: done)

theorem Traced.mono {more : List (List Nonterminal)} (h : Traced g cycles done) (hsub : cycles ⊆ more) :
    Traced g more done := by
  induction h with
  | nil => exact .nil
  | cons _ hsteps ih => exact .cons ih fun b hb => (hsteps b hb).imp_right fun h => h.mono hsub

section Traced

variable {rhss : List (List Symbol)}
  (hv : ∀ rhs ∈ rhss, ∀ m, .nonterminal m ∈ rhs → ∀ s, Traced g s.cycles s.done →
    Traced g (visit g fuel stack m s).2.cycles (visit g fuel stack m s).2.done ∧
      (visit g fuel stack m s).2.Covered a m)

include hv

private theorem traced_choices (hs : Traced g s.cycles s.done) :
    Traced g (FirstSet.choices (visit g fuel stack) rhss s).2.cycles
      (FirstSet.choices (visit g fuel stack) rhss s).2.done :=
  FirstSet.choices_keeps_of_mem (fun s : FirstPass => Traced g s.cycles s.done)
    (fun rhs hrhs m hm s hs => (hv rhs hrhs m hm s hs).1) hs

/-- What an alternative begins with is visited at once, and stays covered. -/
private theorem covered_choices (hs : Traced g s.cycles s.done) {rest : List Symbol}
    (hb : .nonterminal b :: rest ∈ rhss) :
    (FirstSet.choices (visit g fuel stack) rhss s).2.Covered a b := by
  induction rhss generalizing s with
  | nil => simp at hb
  | cons rhs rhss ih =>
    rcases List.mem_cons.mp hb with rfl | hb
    · have hfirst : (visit g fuel stack b s).2.Covered a b :=
        (hv _ List.mem_cons_self b List.mem_cons_self s hs).2
      have hsequence : (FirstSet.sequence (visit g fuel stack) (.nonterminal b :: rest) s).2.Covered a b := by
        simp only [FirstSet.sequence]
        split
        · exact FirstSet.sequence_keeps (fun s : FirstPass => s.Covered a b) (fun _ _ h => h.visit) hfirst
        · exact hfirst
      show (FirstSet.choices (visit g fuel stack) rhss _).2.Covered a b
      exact FirstSet.choices_keeps (fun s : FirstPass => s.Covered a b) (fun _ _ h => h.visit) hsequence
    · have hrest := fun r hr => hv r (List.mem_cons_of_mem rhs hr)
      have hs' : Traced g (FirstSet.sequence (visit g fuel stack) rhs s).2.cycles
          (FirstSet.sequence (visit g fuel stack) rhs s).2.done :=
        FirstSet.sequence_keeps_of_mem (fun s : FirstPass => Traced g s.cycles s.done)
          (fun m hm s hs => (hv rhs List.mem_cons_self m hm s hs).1) hs
      exact ih hrest hs' hb

end Traced

/-- A visit keeps the trace. It leaves its nonterminal done, or records the step to it from the one opened last. -/
private theorem traced_visit (hg : g.WellFormed) (hfuel : g.nonterminals.length < fuel + stack.length)
    (hnd : stack.Nodup) (hlt : ∀ m ∈ stack, m < g.nonterminals.length) (hn : n < g.nonterminals.length)
    (hs : Traced g s.cycles s.done) :
    Traced g (visit g fuel stack n s).2.cycles (visit g fuel stack n s).2.done ∧
      ((∃ f, (visit g fuel stack n s).2.done.lookup n = some f) ∨
        n ∈ stack ∧ ∀ a ∈ stack.head?, Recorded (visit g fuel stack n s).2.cycles a n) := by
  induction fuel generalizing stack n s with
  | zero =>
    -- open nonterminals are distinct, so the fuel outlasts them
    have := length_le_of_open hnd hlt
    omega
  | succ fuel ih =>
    unfold visit
    split
    · rename_i f hf
      exact ⟨hs, Or.inl ⟨f, hf⟩⟩
    · split
      · rename_i hmem
        refine ⟨?_, Or.inr ⟨hmem, ?_⟩⟩
        · rw [done_record]
          exact hs.mono (cycles_subset_record s _)
        · intro a ha
          obtain ⟨below, rfl⟩ := List.head?_eq_some_iff.mp ha
          exact recorded_cycleAt hmem
      · rename_i hmem
        -- `n` is opened last, so what its alternatives begin with is done by then or recorded with it
        have hnd' : (n :: stack).Nodup := List.nodup_cons.mpr ⟨hmem, hnd⟩
        have hlt' : ∀ m ∈ n :: stack, m < g.nonterminals.length := List.forall_mem_cons.mpr ⟨hn, hlt⟩
        have hfuel' : g.nonterminals.length < fuel + (n :: stack).length := by
          rw [List.length_cons]
          omega
        have hv : ∀ rhs ∈ (g.productionsOf n).map (·.2.rhs), ∀ m, .nonterminal m ∈ rhs → ∀ s,
            Traced g s.cycles s.done →
            Traced g (visit g fuel (n :: stack) m s).2.cycles (visit g fuel (n :: stack) m s).2.done ∧
              (visit g fuel (n :: stack) m s).2.Covered n m := by
          intro rhs hrhs m hm s hs
          obtain ⟨p, hp, -, rfl⟩ := mem_rhss.mp hrhs
          obtain ⟨htraced, hm'⟩ := ih hfuel' hnd' hlt' (hg.nonterminal_lt p hp m hm) hs
          exact ⟨htraced, hm'.imp_right fun h => h.2 n rfl⟩
        refine ⟨.cons (traced_choices hv hs) ?_, Or.inl ⟨_, List.lookup_cons_self⟩⟩
        rintro b ⟨p, hp, hlhs, rest, hrhs⟩
        exact covered_choices hv hs (mem_rhss.mpr ⟨p, hp, hlhs, hrhs⟩)

theorem traced_run (hg : g.WellFormed) : Traced g (run g).cycles (run g).done ∧
    ∀ n < g.nonterminals.length, ∃ f, (run g).done.lookup n = some f := by
  have hfold : ∀ (l : List Nonterminal) (s : FirstPass), (∀ n ∈ l, n < g.nonterminals.length) →
      Traced g s.cycles s.done →
      Traced g (l.foldl (fun s n => (visit g (g.nonterminals.length + 1) [] n s).2) s).cycles
        (l.foldl (fun s n => (visit g (g.nonterminals.length + 1) [] n s).2) s).done ∧
      ∀ n, n ∈ l ∨ (∃ f, s.done.lookup n = some f) →
        ∃ f, (l.foldl (fun s n => (visit g (g.nonterminals.length + 1) [] n s).2) s).done.lookup n = some f := by
    intro l
    induction l with
    | nil => exact fun s _ hs => ⟨hs, fun n hn => by simpa using hn⟩
    | cons k l ih =>
      intro s hl hs
      have hk := hl k List.mem_cons_self
      obtain ⟨hs', hk'⟩ := traced_visit hg (Nat.lt_succ_self _) List.nodup_nil (List.forall_mem_nil _) hk hs
      obtain ⟨hend, hall⟩ := ih _ (fun n hn => hl n (List.mem_cons_of_mem k hn)) hs'
      refine ⟨hend, fun n hn => hall n ?_⟩
      rcases hn with hn | ⟨f, hf⟩
      · rcases List.mem_cons.mp hn with rfl | hn
        · exact Or.inr (hk'.resolve_right (by simp))
        · exact Or.inl hn
      · exact Or.inr ⟨f, lookup_visit hf⟩
  obtain ⟨htraced, hall⟩ := hfold g.nonterminalIds {} (fun n hn => List.mem_range.mp hn) .nil
  exact ⟨htraced, fun n hn => hall n (Or.inl (List.mem_range.mpr hn))⟩

/-- Going on along a cycle from what is done, one comes to a step that is recorded, as the steps that are not lead
further and further back. -/
private theorem Traced.exists_recorded (h : Traced g cycles done) {members : List Nonterminal}
    {next : Nonterminal → Nonterminal → Prop} (hnext : ∀ a ∈ members, ∃ b ∈ members, next a b ∧ g.Opens a b)
    (ha : a ∈ members) {f : FirstSet} (hdone : done.lookup a = some f) : ∃ a b, next a b ∧ Recorded cycles a b := by
  induction h generalizing a f with
  | nil => simp at hdone
  | cons hs hsteps ih =>
    rw [List.lookup_cons] at hdone
    split at hdone
    · rename_i heq
      obtain rfl := eq_of_beq heq
      obtain ⟨b, hb, hab, hopens⟩ := hnext _ ha
      rcases hsteps b hopens with ⟨e, he⟩ | hrecorded
      · exact ih hb he
      · exact ⟨_, b, hab, hrecorded⟩
    · exact ih ha hdone

end FirstPass

namespace FirstSets

open FirstPass

variable {g : Grammar}

/-- A cycle along first symbols makes the analysis fail, and some issue names both ends of a step of the cycle; if the
step leads from a nonterminal to itself, the issue names nothing else. -/
theorem reports_on_every_cycle {d : Draft} (hb : d.build = .ok g) {cycle : List Nonterminal} (hne : cycle ≠ [])
    (hchain : (cycle ++ cycle.take 1).IsChain g.Opens) :
    ∃ issues, compute g = .error issues ∧ ∃ path, .leftRecursion path ∈ issues ∧
      ∃ a b, [a, b] <:+: cycle ++ cycle.take 1 ∧ g.nonterminalName a ∈ path ∧ g.nonterminalName b ∈ path ∧
        (a = b → ∀ name ∈ path, name = g.nonterminalName a) := by
  obtain ⟨hlegal, rfl⟩ := Draft.build_eq_ok.mp hb
  have hg := hlegal.wellFormed
  have hnext : ∀ a ∈ cycle, ∃ b ∈ cycle, [a, b] <:+: cycle ++ cycle.take 1 ∧ d.grammar.Opens a b := by
    intro a ha
    obtain ⟨b, hb, hstep⟩ := exists_next_of_mem ha
    exact ⟨b, hb, hstep, List.isChain_pair.mp <| List.IsChain.infix hchain hstep⟩
  obtain ⟨n, hn⟩ := List.exists_mem_of_ne_nil cycle hne
  obtain ⟨htraced, hall⟩ := traced_run hg
  obtain ⟨b, -, -, p, hp, rfl, -⟩ := hnext n hn
  obtain ⟨f, hf⟩ := hall p.lhs (hg.lhs_lt p hp)
  obtain ⟨a, b, hstep, c, hc, hac, hbc, hself⟩ := htraced.exists_recorded hnext hn hf
  refine ⟨_, compute_eq_error.mpr ⟨List.ne_nil_of_mem hc, rfl⟩, _, List.mem_map.mpr ⟨c, hc, rfl⟩, a, b, hstep, ?_⟩
  refine ⟨mem_cyclePath_iff.mpr ⟨a, hac, rfl⟩, mem_cyclePath_iff.mpr ⟨b, hbc, rfl⟩, fun hab name hname => ?_⟩
  obtain ⟨m, hm, rfl⟩ := mem_cyclePath_iff.mp hname
  rw [hself hab m hm]

/-! ### Cycles that are not reported -/

/-- A sum may begin with an expression, and the callee of a call with a sum. -/
def callOfSum : Draft where
  start := "expr"
  terminals := ["+", "n", "(", ")"]
  rules := [("expr", ["sum"]), ("expr", ["call"]), ("sum", ["expr", "+", "n"]), ("sum", ["n"]),
    ("call", ["sum", "(", ")"])]

private theorem compute_callOfSum : callOfSum.build = .ok callOfSum.grammar ∧
    compute callOfSum.grammar = .error [.leftRecursion ["expr", "sum", "expr"]] := by decide +kernel

private theorem opens_callOfSum : callOfSum.grammar.Opens 0 2 ∧ callOfSum.grammar.Opens 2 1 ∧
    callOfSum.grammar.Opens 1 0 := by
  refine ⟨⟨⟨0, [.nonterminal 2]⟩, by decide +kernel, rfl, [], rfl⟩, ?_, ?_⟩
  · exact ⟨⟨2, [.nonterminal 1, .terminal 2, .terminal 3]⟩, by decide +kernel, rfl, _, rfl⟩
  · exact ⟨⟨1, [.nonterminal 0, .terminal 0, .terminal 1]⟩, by decide +kernel, rfl, _, rfl⟩

/-- Of its cycle through all three nonterminals the step from the sum to the expression is reported. -/
theorem reports_on_every_cycle_callOfSum :
    compute callOfSum.grammar = .error [.leftRecursion ["expr", "sum", "expr"]] ∧
      ∃ a b, [a, b] <:+: [0, 2, 1, 0] ∧ callOfSum.grammar.nonterminalName a ∈ ["expr", "sum", "expr"] ∧
        callOfSum.grammar.nonterminalName b ∈ ["expr", "sum", "expr"] := by
  obtain ⟨hbuild, hcompute⟩ := compute_callOfSum
  obtain ⟨hcall, hsum, hexpr⟩ := opens_callOfSum
  have hchain : ([0, 2, 1] ++ [0, 2, 1].take 1).IsChain callOfSum.grammar.Opens := by simp [hcall, hsum, hexpr]
  obtain ⟨issues, herror, path, hpath, a, b, hstep, ha, hb, -⟩ := reports_on_every_cycle hbuild (by decide) hchain
  obtain rfl := Except.error.inj (hcompute.symm.trans herror)
  obtain rfl := Issue.leftRecursion.inj (List.mem_singleton.mp hpath)
  exact ⟨hcompute, a, b, hstep, ha, hb⟩

/-- A word may begin with a word behind a sign that is left out. -/
def signedWord : Draft where
  start := "word"
  terminals := ["letter"]
  rules := [("mark", ["sign"]), ("mark", []), ("sign", ["mark"]), ("word", ["sign", "word", "letter"]),
    ("word", ["letter"])]

private theorem compute_signedWord : signedWord.build = .ok signedWord.grammar ∧
    compute signedWord.grammar = .error [.leftRecursion ["mark", "sign", "mark"]] := by decide +kernel

private theorem leftCorner_signedWord : signedWord.grammar.LeftCorner 2 2 := by
  have hmark : signedWord.grammar.Vanishes [.nonterminal 0] :=
    Grammar.vanishes_nonterminal.mpr ⟨⟨0, []⟩, by decide +kernel, rfl, Grammar.vanishes_nil⟩
  have hsign : signedWord.grammar.Vanishes [.nonterminal 1] :=
    Grammar.vanishes_nonterminal.mpr ⟨⟨1, [.nonterminal 0]⟩, by decide +kernel, rfl, hmark⟩
  exact ⟨⟨2, [.nonterminal 1, .nonterminal 2, .terminal 0]⟩, by decide +kernel, [.nonterminal 1], [.terminal 0], rfl, rfl,
    hsign⟩

/-- If one path is reported, and it does not name a nonterminal of a cycle, then no path is that of the cycle. -/
private theorem misses {g : Grammar} {path : List String} {cycle : List Nonterminal} {n : Nonterminal} (hn : n ∈ cycle)
    (hname : g.nonterminalName n ∉ path) :
    (∀ path', .leftRecursion path' ∈ [Issue.leftRecursion path] →
      ¬ ∀ name, name ∈ path' ↔ name ∈ cycle.map g.nonterminalName) ∧
    ∀ path', .leftRecursion path' ∈ [Issue.leftRecursion path] → g.nonterminalName n ∉ path' := by
  have hpath : ∀ path', .leftRecursion path' ∈ [Issue.leftRecursion path] → path' = path := by
    intro path' hmem
    exact Issue.leftRecursion.inj (List.mem_singleton.mp hmem)
  refine ⟨fun path' hmem hsame => ?_, fun path' hmem => hpath path' hmem ▸ hname⟩
  exact hname (hpath path' hmem ▸ (hsame _).mpr (List.mem_map_of_mem hn))

/-- A grammar is built that has a cycle whose nonterminals are those of no path that is reported. One of them is named by
no path at all, though it is a left corner of itself. -/
def MissesCycle (d : Draft) : Prop :=
  ∃ g issues cycle n, d.build = .ok g ∧ compute g = .error issues ∧ g.IsCycle cycle ∧
    (∀ path, .leftRecursion path ∈ issues → ¬ ∀ name, name ∈ path ↔ name ∈ cycle.map g.nonterminalName) ∧
    Relation.TransGen g.LeftCorner n n ∧ ∀ path, .leftRecursion path ∈ issues → g.nonterminalName n ∉ path

/-- With calls, the sum is done when the call comes to it. With words, the sign is done while the mark is open, so it does
not count as vanishing afterwards, and nothing is looked at behind it. -/
theorem not_reports_every_cycle : MissesCycle callOfSum ∧ MissesCycle signedWord := by
  constructor
  · obtain ⟨hbuild, hcompute⟩ := compute_callOfSum
    obtain ⟨hcall, hsum, hexpr⟩ := opens_callOfSum
    have hcycle : callOfSum.grammar.IsCycle [0, 2, 1] := by
      refine ⟨by decide, by decide, ?_⟩
      simp [hcall.leftCorner, hsum.leftCorner, hexpr.leftCorner]
    have hself : Relation.TransGen callOfSum.grammar.LeftCorner 2 2 :=
      ((Relation.TransGen.single hsum.leftCorner).tail hexpr.leftCorner).tail hcall.leftCorner
    obtain ⟨hcycles, hnames⟩ := misses (by decide : 2 ∈ [0, 2, 1])
      (by decide +kernel : callOfSum.grammar.nonterminalName 2 ∉ ["expr", "sum", "expr"])
    exact ⟨_, _, _, 2, hbuild, hcompute, hcycle, hcycles, hself, hnames⟩
  · obtain ⟨hbuild, hcompute⟩ := compute_signedWord
    have hcycle : signedWord.grammar.IsCycle [2] := ⟨by decide, by decide, by simpa using leftCorner_signedWord⟩
    obtain ⟨hcycles, hnames⟩ := misses (by decide : 2 ∈ [2])
      (by decide +kernel : signedWord.grammar.nonterminalName 2 ∉ ["mark", "sign", "mark"])
    exact ⟨_, _, _, 2, hbuild, hcompute, hcycle, hcycles, .single leftCorner_signedWord, hnames⟩

end FirstSets

end Predictive
