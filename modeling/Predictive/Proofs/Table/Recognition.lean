import Predictive.Proofs.Grammar.Draft
import Predictive.Proofs.Table.Prediction

/-!
# Tables recognise the language

The parser of a compiled grammar halts on every word, and accepts exactly the words that the start symbol derives.

It halts by an induction on the input and, for one place of the input, along left corners: what stands on the stack is
either dropped without reading, and then it vanishes, or comes down to a terminal (`ParserState.Clears`). It accepts
only words of the language since a stack from which it accepts derives the input (`Compiled.derives_of_run`). And it
accepts all of them since a stack that derives the input, and that FOLLOW is safe for, never leads to rejection
(`Compiled.run_ne_false`).
-/

namespace Predictive

namespace ParserState

variable {predict : Predictor} {eof : Terminal} {g : Grammar}

/-! ### Steps and runs -/

theorem step_empty_stack (input : List Terminal) : step predict eof ⟨[], input⟩ = .verdict false := rfl

theorem step_empty_input (stack : List Symbol) : step predict eof ⟨stack, []⟩ = .verdict false := by
  rcases stack with _ | ⟨_ | _, _⟩ <;> rfl

theorem step_terminal (x look : Terminal) (stack : List Symbol) (rest : List Terminal) :
    step predict eof ⟨.terminal x :: stack, look :: rest⟩ =
      if x ≠ look then .verdict false else if x = eof then .verdict rest.isEmpty else .more ⟨stack, rest⟩ := rfl

theorem step_nonterminal (n : Nonterminal) (look : Terminal) (stack : List Symbol) (rest : List Terminal) :
    step predict eof ⟨.nonterminal n :: stack, look :: rest⟩ =
      match predict n look with
      | some symbols => .more ⟨symbols ++ stack, look :: rest⟩
      | none => .verdict false := rfl

theorem run_succ (n : Nat) (s : ParserState) : s.run predict eof (n + 1) =
    match s.step predict eof with
    | .more s => s.run predict eof n
    | .verdict accepted => some accepted := rfl

theorem Halts.of_more {s s' : ParserState} (hs : s.step predict eof = .more s') (h : s'.Halts predict eof) :
    s.Halts predict eof := by
  obtain ⟨n, b, hn⟩ := h
  exact ⟨n + 1, b, by rw [run_succ, hs]; exact hn⟩

theorem Halts.of_verdict {s : ParserState} {b : Bool} (hs : s.step predict eof = .verdict b) :
    s.Halts predict eof :=
  ⟨1, b, by rw [run_succ, hs]⟩

/-! ### Halting -/

/-- With the sequence on top of the stack the parser halts, provided that it does below it if the sequence
vanishes. -/
def Clears (g : Grammar) (predict : Predictor) (eof : Terminal) (input : List Terminal) (u : List Symbol) : Prop :=
  ∀ stack, (g.Vanishes u → Halts predict eof ⟨stack, input⟩) → Halts predict eof ⟨u ++ stack, input⟩

variable {input : List Terminal}

theorem clears_nil : Clears g predict eof input [] := fun _ h => h Grammar.vanishes_nil

theorem Clears.append {u v : List Symbol} (hu : Clears g predict eof input u)
    (hv : g.Vanishes u → Clears g predict eof input v) : Clears g predict eof input (u ++ v) := by
  intro stack h
  rw [List.append_assoc]
  exact hu (v ++ stack) fun hu' => hv hu' stack fun hv' => h (Grammar.vanishes_append.mpr ⟨hu', hv'⟩)

/-- A terminal is rejected, accepted, or read. -/
theorem clears_terminal {rest : List Terminal} (hrest : ∀ stack, Halts predict eof ⟨stack, rest⟩)
    (look x : Terminal) : Clears g predict eof (look :: rest) [.terminal x] := by
  intro stack _
  have hstep : step predict eof ⟨.terminal x :: stack, look :: rest⟩ = _ := step_terminal x look stack rest
  split at hstep
  · exact .of_verdict hstep
  · split at hstep
    · exact .of_verdict hstep
    · exact .of_more hstep (hrest stack)

/-- A sequence clears if its left corners do. -/
theorem clears_of_corners {look : Terminal} {rest : List Terminal}
    (hrest : ∀ stack, Halts predict eof ⟨stack, rest⟩) {u : List Symbol}
    (h : ∀ a n b, u = a ++ .nonterminal n :: b → g.Vanishes a → Clears g predict eof (look :: rest) [.nonterminal n]) :
    Clears g predict eof (look :: rest) u := by
  induction u with
  | nil => exact clears_nil
  | cons x u ih =>
    refine Clears.append (u := [x]) ?_ fun hx => ?_
    · cases x with
      | terminal x => exact clears_terminal hrest look x
      | nonterminal n => exact h [] n u rfl Grammar.vanishes_nil
    · refine ih fun a n b hu ha => h (x :: a) n b (by rw [hu, List.cons_append]) ?_
      exact Grammar.vanishes_cons.mpr ⟨hx, ha⟩

end ParserState

namespace Compiled

open ParserState

variable {g : Grammar} {c : Compiled}

section Recognition

variable (hg : g.WellFormed) (hc : compile g = .ok c)

include hg hc

/-- A nonterminal clears: it is dropped, or its left corners come before it. -/
private theorem clears_nonterminal {look : Terminal} {rest : List Terminal}
    (hrest : ∀ stack, Halts (c.table.predictor g) g.eof ⟨stack, rest⟩) (n : Nonterminal) :
    Clears g (c.table.predictor g) g.eof (look :: rest) [.nonterminal n] := by
  induction FirstSets.acc_leftCorner hg (compile_eq_ok.mp hc).2.1 n with
  | intro n _ ih =>
    intro stack hstack
    have hstep : step (c.table.predictor g) g.eof ⟨.nonterminal n :: stack, look :: rest⟩ = _ :=
      step_nonterminal n look stack rest
    cases hpred : c.table.predictor g n look with
    | none =>
      rw [hpred] at hstep
      exact .of_verdict hstep
    | some symbols =>
      rw [hpred] at hstep
      refine .of_more hstep ?_
      obtain ⟨p, hp, rfl, rfl | ⟨rfl, hv⟩⟩ := production_of_predictor hg hc hpred
      · -- the payload begins with left corners of `n`
        have hclears : Clears g (c.table.predictor g) g.eof (look :: rest) p.rhs :=
          clears_of_corners hrest fun a m b hr ha => ih m ⟨p, hp, a, b, rfl, hr, ha⟩
        exact hclears stack fun hv => hstack (Grammar.vanishes_nonterminal.mpr ⟨p, hp, rfl, hv⟩)
      · exact hstack (Grammar.vanishes_nonterminal.mpr ⟨p, hp, rfl, hv⟩)

/-- The parser halts in every state. -/
theorem halts (input : List Terminal) (stack : List Symbol) :
    Halts (c.table.predictor g) g.eof ⟨stack, input⟩ := by
  induction input generalizing stack with
  | nil => exact .of_verdict (step_empty_input stack)
  | cons look rest ih =>
    have hclears : Clears g (c.table.predictor g) g.eof (look :: rest) stack :=
      clears_of_corners ih fun _ n _ _ _ => clears_nonterminal hg hc ih n
    have hbottom : Halts (c.table.predictor g) g.eof ⟨[], look :: rest⟩ := .of_verdict (step_empty_stack _)
    simpa using hclears [] fun _ => hbottom

/-! ### Soundness -/

/-- What the parser puts in place of a nonterminal is derived from it. -/
private theorem derives_of_predictor {n : Nonterminal} {t : Terminal} {symbols : List Symbol}
    (h : c.table.predictor g n t = some symbols) : g.Markless symbols ∧ ∀ w, g.Derives symbols w →
      g.Derives [.nonterminal n] w := by
  obtain ⟨p, hp, rfl, rfl | ⟨rfl, hv⟩⟩ := production_of_predictor hg hc h
  · exact ⟨hg.markless_rhs hp, fun w hw => (Grammar.Derives.production hp).trans hw⟩
  · refine ⟨by simp [Grammar.Markless], fun w hw => ?_⟩
    rw [hw.eq_nil]
    exact (Grammar.Derives.production hp).trans hv

/-- A stack from which the parser accepts derives the input. -/
theorem derives_of_run {k : Nat} {u : List Symbol} {input : List Terminal} (hu : g.Markless u)
    (h : run (c.table.predictor g) g.eof k ⟨u ++ [.terminal g.eof], input⟩ = some true) :
    ∃ v, input = v ++ [g.eof] ∧ g.Derives u (v.map .terminal) := by
  induction k generalizing u input with
  | zero => simp [run] at h
  | succ k ih =>
    rw [run_succ] at h
    cases input with
    | nil => simp [step_empty_input] at h
    | cons look rest =>
      cases u with
      | nil =>
        -- only the end marker is left
        rw [List.nil_append, step_terminal] at h
        by_cases hx : g.eof = look
        · have hrest : rest = [] := by simpa [hx] using h
          exact ⟨[], by simp [hx, hrest], .refl _⟩
        · simp [hx] at h
      | cons x u =>
        cases x with
        | terminal x =>
          have hx : x ≠ g.eof := Nat.ne_of_lt (hu x (by simp))
          rw [List.cons_append, step_terminal] at h
          by_cases hlook : x = look
          · simp only [hlook, ne_eq, not_true_eq_false, if_false, if_neg (hlook ▸ hx)] at h
            obtain ⟨v, rfl, hv⟩ := ih hu.tail h
            refine ⟨x :: v, by simp [hlook], ?_⟩
            exact Grammar.Derives.append_left hv [.terminal x]
          · simp [hlook] at h
        | nonterminal n =>
          rw [List.cons_append, step_nonterminal] at h
          cases hpred : c.table.predictor g n look with
          | none => simp [hpred] at h
          | some symbols =>
            -- the input is derived from the payload and the rest of the stack, part by part
            obtain ⟨hm, hd⟩ := derives_of_predictor hg hc hpred
            simp only [hpred, ← List.append_assoc] at h
            have hu' := hu.tail
            obtain ⟨v, hv, hder⟩ := ih (hm.append hu') h
            obtain ⟨a, b, hab, ha, hb⟩ := hder.split
            exact ⟨v, hv, hab ▸ Grammar.Derives.append (hd a ha) hb⟩

/-! ### Completeness -/

/-- The parser replaces a nonterminal in front of a sentential form by an alternative that leads to the input, or drops
it if that alternative vanishes. -/
private theorem predictor_of_derives {n : Nonterminal} {u : List Symbol} {v : List Terminal}
    (hsafe : g.FollowSafe (.nonterminal n :: u)) (h : g.Derives (.nonterminal n :: u) (v.map .terminal)) {look : Terminal}
    {rest : List Terminal} (hv : v ++ [g.eof] = look :: rest) :
    ∃ symbols, c.table.predictor g n look = some symbols ∧ g.FollowSafe (symbols ++ u) ∧
      g.Derives (symbols ++ u) (v.map .terminal) := by
  obtain ⟨a, b, hab, hn, hb⟩ := Grammar.Derives.split (u := [.nonterminal n]) h
  rcases hn.nonterminal_cases with rfl | ⟨p, hp, rfl, ha⟩
  · -- a nonterminal cannot be left over in a word
    have : Symbol.nonterminal n ∈ v.map Symbol.terminal := by simp [hab]
    simp at this
  have hexpand : g.FollowSafe (p.rhs ++ u) ∧ g.Derives (p.rhs ++ u) (v.map .terminal) :=
    ⟨Grammar.FollowSafe.replace (u := []) hp hsafe, hab ▸ ha.append hb⟩
  by_cases hlook : g.BeginsWith p.rhs look
  · exact ⟨p.rhs, predictor_beginsWith hg hc hp hlook, hexpand⟩
  -- the alternative derives nothing, or it would begin with the next terminal
  obtain rfl : a = [] := by
    cases a with
    | nil => rfl
    | cons x a =>
      cases v with
      | nil => simp at hab
      | cons t v =>
        simp only [List.map_cons, List.cons_append, List.cons.injEq] at hab hv
        rw [← hab.1] at ha
        exact absurd ⟨a, hv.1 ▸ ha⟩ hlook
  obtain ⟨hnext, hend⟩ := hsafe [] p.lhs u rfl
  have hfollows : g.Follows p.lhs look := by
    cases v with
    | nil =>
      obtain ⟨rfl, -⟩ : g.eof = look ∧ [] = rest := by simpa using hv
      obtain rfl : [] = b := by simpa using hab
      exact hend hb
    | cons t v =>
      simp only [List.map_cons, List.nil_append, List.cons_append, List.cons.injEq] at hab hv
      exact hnext look ⟨v.map .terminal, by rw [← hv.1, hab]; exact hb⟩
  exact ⟨[], predictor_vanishes hg hc hp ha hfollows hlook, hsafe.tail, hab ▸ hb⟩

/-- A sentential form that derives the input never leads to rejection. -/
theorem run_ne_false {k : Nat} {u : List Symbol} {v : List Terminal} (hu : g.Markless u) (hsafe : g.FollowSafe u)
    (h : g.Derives u (v.map .terminal)) :
    run (c.table.predictor g) g.eof k ⟨u ++ [.terminal g.eof], v ++ [g.eof]⟩ ≠ some false := by
  induction k generalizing u v with
  | zero => simp [run]
  | succ k ih =>
    rw [run_succ]
    cases u with
    | nil =>
      obtain rfl : v = [] := by simpa using h.eq_nil
      simp [step_terminal]
    | cons x u =>
      cases x with
      | terminal x =>
        obtain ⟨w, hw, hd⟩ := h.terminal_cons
        cases v with
        | nil => simp at hw
        | cons t v =>
          simp only [List.map_cons, List.cons.injEq, Symbol.terminal.injEq] at hw
          obtain ⟨rfl, rfl⟩ := hw
          have hx : t ≠ g.eof := Nat.ne_of_lt (hu t (by simp))
          rw [List.cons_append, List.cons_append, step_terminal]
          simp only [ne_eq, not_true_eq_false, if_false, if_neg hx]
          exact ih hu.tail hsafe.tail hd
      | nonterminal n =>
        cases hv : v ++ [g.eof] with
        | nil => simp at hv
        | cons look rest =>
          obtain ⟨symbols, hpred, hsafe', hd⟩ := predictor_of_derives hg hc hsafe h hv
          obtain ⟨hm, -⟩ := derives_of_predictor hg hc hpred
          rw [List.cons_append, step_nonterminal, hpred]
          simp only [← List.append_assoc, ← hv]
          exact ih (hm.append hu.tail) hsafe' hd

/-- The parser accepts exactly the words of the language. -/
theorem accepts_iff (w : List Terminal) : c.table.Accepts g w ↔ g.Generates w := by
  have hmark : g.Markless [.nonterminal g.start] := by simp [Grammar.Markless]
  constructor
  · rintro ⟨k, hk⟩
    obtain ⟨v, hv, hd⟩ := derives_of_run hg hc (u := [.nonterminal g.start]) hmark hk
    rw [List.append_cancel_right hv]
    exact hd
  · intro h
    obtain ⟨k, b, hk⟩ := halts hg hc (w ++ [g.eof]) [.nonterminal g.start, .terminal g.eof]
    cases b with
    | true => exact ⟨k, hk⟩
    | false => exact absurd hk (run_ne_false hg hc (u := [.nonterminal g.start]) hmark Grammar.followSafe_start h)

end Recognition

/-- The parser of a compiled grammar halts on every word, and accepts it exactly if the start symbol derives it. -/
theorem halts_and_accepts_iff_generates {d : Draft} (hb : d.build = .ok g) (hc : compile g = .ok c)
    (w : List Terminal) : c.table.Halts g w ∧ (c.table.Accepts g w ↔ g.Generates w) := by
  obtain ⟨hlegal, rfl⟩ := Draft.build_eq_ok.mp hb
  have hg := hlegal.wellFormed
  exact ⟨halts hg hc _ _, accepts_iff hg hc w⟩

end Compiled

/-! ### A grammar whose start symbol vanishes -/

/-- Two optional letters: the rule of the start symbol is not empty and can vanish. -/
def Draft.optionalPair : Draft where
  start := "pair"
  terminals := ["a", "b"]
  rules := [("pair", ["first", "second"]), ("first", ["a"]), ("first", []), ("second", ["b"]), ("second", [])]

/-- Its sets and its table: what may be missing is dropped where it is. -/
def Compiled.optionalPair : Compiled where
  grammar := Draft.optionalPair.grammar
  analysis := ⟨⟨[⟨[0, 1], true⟩, ⟨[0], true⟩, ⟨[1], true⟩]⟩, ⟨[[2], [1, 2], [2]]⟩⟩
  table := ⟨[((0, 0), .expand 0), ((0, 1), .expand 0), ((0, 2), .vanish), ((1, 0), .expand 1), ((1, 1), .vanish),
    ((1, 2), .vanish), ((2, 1), .expand 3), ((2, 2), .vanish)]⟩

theorem Draft.build_optionalPair : Draft.optionalPair.build = .ok Draft.optionalPair.grammar := by decide +kernel

theorem Compiled.compile_optionalPair :
    Compiled.compile Draft.optionalPair.grammar = .ok Compiled.optionalPair := by decide +kernel

theorem Compiled.halts_and_accepts_optionalPair :
    Draft.optionalPair.build = .ok Draft.optionalPair.grammar ∧
      Compiled.compile Draft.optionalPair.grammar = .ok Compiled.optionalPair ∧
      Compiled.optionalPair.table.Halts Draft.optionalPair.grammar [1] ∧
      (Compiled.optionalPair.table.Accepts Draft.optionalPair.grammar [1] ↔
        Draft.optionalPair.grammar.Generates [1]) :=
  ⟨Draft.build_optionalPair, Compiled.compile_optionalPair,
    Compiled.halts_and_accepts_iff_generates Draft.build_optionalPair Compiled.compile_optionalPair [1]⟩

end Predictive
