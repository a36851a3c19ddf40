import Predictive.Proofs.Analysis.FirstPass

/-!
# FIRST sets and derivations

If a grammar has FIRST sets, they say exactly what its sequences derive: `FirstSets.nullable_ofSequence` for the empty
string and `FirstSets.mem_ofSequence` for the terminals that can come first. A derivation can be followed
backwards, since replacing a nonterminal by an alternative makes its set no larger (`within_of_step`).

A grammar has FIRST sets unless it is left-recursive (`FirstSets.isOk_compute`). Then the left corners of a
nonterminal can be followed only finitely often (`FirstSets.acc_leftCorner`), which is what makes a parser halt.
-/

namespace Predictive

/-- Everything that the first set has is in the second one. -/
structure FirstSet.Within (e f : FirstSet) : Prop where
  nullable : e.nullable = true → f.nullable = true
  terminals : ∀ t ∈ e.terminals, t ∈ f.terminals

namespace FirstPass

variable {g : Grammar} {done : List (Nonterminal × FirstSet)}

private theorem Settled.knownChoice? (hs : Settled g done) {n : Nonterminal} {f : FirstSet}
    (hf : done.lookup n = some f) : knownChoice? done ((g.productionsOf n).map (·.2.rhs)) = some f := by
  induction hs with
  | nil => simp at hf
  | @cons done m e hs hm he ih =>
    have hkeep : ∀ k r, done.lookup k = some r → ((m, e) :: done).lookup k = some r :=
      fun k r hk => lookup_cons_of_lookup hm hk
    rw [List.lookup_cons] at hf
    split at hf
    · rename_i heq
      rw [eq_of_beq heq, ← Option.some.inj hf]
      exact knownChoice?_mono hkeep he
    · exact knownChoice?_mono hkeep (ih hf)

private theorem known?_of_mem {rhss : List (List Symbol)} {f : FirstSet} (hf : knownChoice? done rhss = some f)
    {rhs : List Symbol} (hm : rhs ∈ rhss) : ∃ e, known? done rhs = some e ∧ e.Within f := by
  induction rhss generalizing f with
  | nil => simp at hm
  | cons head rest ih =>
    obtain ⟨e, r, he, hr, rfl⟩ := knownChoice?_cons.mp hf
    rcases List.mem_cons.mp hm with rfl | hm
    · exact ⟨e, he, fun h => by simp [FirstSet.choice, h], fun t ht => by simp [FirstSet.choice, ht]⟩
    · obtain ⟨d, hd, hn, ht⟩ := ih hr hm
      exact ⟨d, hd, fun h => by simp [FirstSet.choice, hn h], fun t h => by simp [FirstSet.choice, ht t h]⟩

/-- The set of a nonterminal is needed where all that stands before it vanishes. -/
private theorem lookup_of_known? {u v : List Symbol} {b : Nonterminal} {e : FirstSet}
    (hk : known? done (u ++ .nonterminal b :: v) = some e) (ht : ∀ t, .terminal t ∉ u)
    (hn : ∀ m f, .nonterminal m ∈ u → done.lookup m = some f → f.nullable = true) :
    ∃ f, done.lookup b = some f := by
  induction u generalizing e with
  | nil =>
    simp only [List.nil_append, known?] at hk
    split at hk
    · simp at hk
    · rename_i f hf
      exact ⟨f, hf⟩
  | cons x u ih =>
    cases x with
    | terminal t => exact absurd (List.mem_cons_self ..) (ht t)
    | nonterminal m =>
      simp only [List.cons_append, known?] at hk
      split at hk
      · simp at hk
      · rename_i f hf
        rw [hn m f (by simp) hf] at hk
        obtain ⟨r, hr, -⟩ := Option.map_eq_some_iff.mp hk
        exact ih hr (fun t h => ht t (by simp [h])) (fun k r hk => hn k r (by simp [hk]))

end FirstPass

namespace FirstSets

open FirstPass

variable {g : Grammar} {first : FirstSets}

/-! ### Sequences of symbols -/

@[simp] theorem ofSequence_nil : first.ofSequence [] = { nullable := true } := rfl

@[simp] theorem ofSequence_terminal (t : Terminal) (u : List Symbol) :
    first.ofSequence (.terminal t :: u) = { terminals := [t] } := rfl

theorem ofSequence_nonterminal (n : Nonterminal) (u : List Symbol) :
    first.ofSequence (.nonterminal n :: u) =
      if (first.of n).nullable then (first.of n).before (first.ofSequence u) else first.of n := by
  simp only [ofSequence, FirstSet.sequence]
  split <;> rfl

@[simp] theorem nullable_ofSequence_singleton (n : Nonterminal) :
    (first.ofSequence [.nonterminal n]).nullable = (first.of n).nullable := by
  rw [ofSequence_nonterminal]
  split
  · rename_i hn
    rw [hn]
    rfl
  · rfl

@[simp] theorem mem_ofSequence_singleton {n : Nonterminal} {t : Terminal} :
    t ∈ (first.ofSequence [.nonterminal n]).terminals ↔ t ∈ (first.of n).terminals := by
  rw [ofSequence_nonterminal]
  split
  · simp [FirstSet.before]
  · rfl

theorem nullable_ofSequence_append (u v : List Symbol) :
    (first.ofSequence (u ++ v)).nullable = ((first.ofSequence u).nullable && (first.ofSequence v).nullable) := by
  induction u with
  | nil => simp
  | cons x u ih =>
    cases x with
    | terminal t => simp
    | nonterminal n =>
      rw [List.cons_append, ofSequence_nonterminal, ofSequence_nonterminal]
      split
      · exact ih
      · simp [*]

theorem mem_ofSequence_append {u v : List Symbol} {t : Terminal} :
    t ∈ (first.ofSequence (u ++ v)).terminals ↔
      t ∈ (first.ofSequence u).terminals ∨
        (first.ofSequence u).nullable = true ∧ t ∈ (first.ofSequence v).terminals := by
  induction u with
  | nil => simp
  | cons x u ih =>
    cases x with
    | terminal x => simp
    | nonterminal n =>
      rw [List.cons_append, ofSequence_nonterminal, ofSequence_nonterminal]
      split
      · simp only [FirstSet.before, mem_union, ih, or_assoc]
      · simp [*]

/-- Sequences with a common front and end compare like their middle parts. -/
private theorem within_append {x y : List Symbol} (h : (first.ofSequence x).Within (first.ofSequence y))
    (u v : List Symbol) : (first.ofSequence (u ++ x ++ v)).Within (first.ofSequence (u ++ y ++ v)) := by
  constructor
  · simp only [nullable_ofSequence_append, Bool.and_eq_true]
    rintro ⟨⟨hu, hx⟩, hv⟩
    exact ⟨⟨hu, h.nullable hx⟩, hv⟩
  · intro t
    simp only [mem_ofSequence_append, nullable_ofSequence_append, Bool.and_eq_true]
    rintro ((hu | ⟨hu, hx⟩) | ⟨⟨hu, hx⟩, hv⟩)
    · exact Or.inl (Or.inl hu)
    · exact Or.inl (Or.inr ⟨hu, h.terminals t hx⟩)
    · exact Or.inr ⟨⟨hu, h.nullable hx⟩, hv⟩

/-! ### Sets that the pass computed -/

private theorem cycles_of_compute (h : compute g = .ok first) : (run g).cycles = [] := by
  simp only [compute] at h
  split at h
  · assumption
  · simp at h

private theorem of_eq_lookup (h : compute g = .ok first) {n : Nonterminal} (hn : n < g.nonterminals.length) :
    first.of n = ((run g).done.lookup n).getD {} := by
  simp only [compute, cycles_of_compute h, if_true, Except.ok.injEq] at h
  subst h
  simp [of, Grammar.nonterminalIds, hn]

private theorem of_eq_empty (h : compute g = .ok first) {n : Nonterminal} (hn : g.nonterminals.length ≤ n) :
    first.of n = {} := by
  simp only [compute, cycles_of_compute h, if_true, Except.ok.injEq] at h
  subst h
  simp [of, Grammar.nonterminalIds, hn]

private theorem ofSequence_of_known? (h : compute g = .ok first) {u : List Symbol} {f : FirstSet}
    (hu : ∀ n, .nonterminal n ∈ u → n < g.nonterminals.length) (hf : known? (run g).done u = some f) :
    first.ofSequence u = f := by
  induction u generalizing f with
  | nil => exact Option.some.inj hf
  | cons x u ih =>
    cases x with
    | terminal t => exact Option.some.inj hf
    | nonterminal n =>
      simp only [known?] at hf
      split at hf
      · simp at hf
      · rename_i e he
        have hof : first.of n = e := by rw [of_eq_lookup h (hu n (by simp)), he]; rfl
        rw [ofSequence_nonterminal, hof]
        split at hf
        · rename_i hn
          obtain ⟨r, hr, rfl⟩ := Option.map_eq_some_iff.mp hf
          rw [if_pos hn, ih (fun m hm => hu m (by simp [hm])) hr]
        · rename_i hn
          rw [if_neg hn]
          exact Option.some.inj hf

/-- The set of a nonterminal has all that those of its alternatives have. -/
private theorem within_production (hg : g.WellFormed) (h : compute g = .ok first) {p : Production}
    (hp : p ∈ g.productions) : (first.ofSequence p.rhs).Within (first.of p.lhs) := by
  obtain ⟨hs, hall⟩ := settled_run hg (cycles_of_compute h)
  obtain ⟨f, hf⟩ := hall p.lhs (hg.lhs_lt p hp)
  have hmem : p.rhs ∈ (g.productionsOf p.lhs).map (·.2.rhs) := mem_rhss.mpr ⟨p, hp, rfl, rfl⟩
  obtain ⟨e, he, hw⟩ := known?_of_mem (hs.knownChoice? hf) hmem
  rw [ofSequence_of_known? h (hg.nonterminal_lt p hp) he, of_eq_lookup h (hg.lhs_lt p hp), hf]
  exact hw

private theorem soundFor_of (h : compute g = .ok first) (n : Nonterminal) :
    (first.of n).SoundFor g [.nonterminal n] := by
  rcases Nat.lt_or_ge n g.nonterminals.length with hn | hn
  · rw [of_eq_lookup h hn]
    cases hl : (run g).done.lookup n with
    | none => exact .empty
    | some f => exact (sound_run g).done n f hl
  · rw [of_eq_empty h hn]
    exact .empty

private theorem soundFor_ofSequence (h : compute g = .ok first) (u : List Symbol) :
    (first.ofSequence u).SoundFor g u := by
  induction u with
  | nil => exact .nil
  | cons x u ih =>
    cases x with
    | terminal t => exact .terminal
    | nonterminal n =>
      rw [ofSequence_nonterminal]
      split
      · rename_i hn
        exact (soundFor_of h n).before hn ih
      · rename_i hn
        exact (soundFor_of h n).cons (by simpa using hn)

/-! ### FIRST is what derivations begin with -/

private theorem within_of_step (hg : g.WellFormed) (h : compute g = .ok first) {u v : List Symbol}
    (hs : g.Step u v) : (first.ofSequence v).Within (first.ofSequence u) := by
  cases hs with
  | replace a b p hp =>
    have hone : (first.ofSequence p.rhs).Within (first.ofSequence [.nonterminal p.lhs]) := by
      have hw := within_production hg h hp
      rw [ofSequence_nonterminal]
      split
      · exact ⟨fun _ => rfl, fun t ht => by simp [FirstSet.before, hw.terminals t ht]⟩
      · exact hw
    simpa using within_append hone a b

private theorem within_of_derives (hg : g.WellFormed) (h : compute g = .ok first) {u v : List Symbol}
    (hd : g.Derives u v) : (first.ofSequence v).Within (first.ofSequence u) := by
  induction hd with
  | refl => exact ⟨id, fun _ => id⟩
  | tail _ hs ih =>
    have hw := within_of_step hg h hs
    exact ⟨fun hn => ih.nullable (hw.nullable hn), fun t ht => ih.terminals t (hw.terminals t ht)⟩

/-- FIRST of a sequence says whether it derives the empty string. -/
theorem nullable_ofSequence (hg : g.WellFormed) (h : compute g = .ok first) {u : List Symbol} :
    (first.ofSequence u).nullable = true ↔ g.Vanishes u :=
  ⟨(soundFor_ofSequence h u).vanishes, fun hv => (within_of_derives hg h hv).nullable rfl⟩

/-- FIRST of a sequence has the terminals that its derivations can begin with. -/
theorem mem_ofSequence (hg : g.WellFormed) (h : compute g = .ok first) {u : List Symbol} {t : Terminal} :
    t ∈ (first.ofSequence u).terminals ↔ g.BeginsWith u t := by
  constructor
  · exact (soundFor_ofSequence h u).begins t
  · rintro ⟨v, hd⟩
    exact (within_of_derives hg h hd).terminals t (by simp)

/-- FIRST of a nonterminal says whether it derives the empty string. -/
theorem nullable_of (hg : g.WellFormed) (h : compute g = .ok first) {n : Nonterminal} :
    (first.of n).nullable = true ↔ g.Vanishes [.nonterminal n] := by
  rw [← nullable_ofSequence hg h, nullable_ofSequence_singleton]

/-- FIRST of a nonterminal has the terminals that its derivations can begin with. -/
theorem mem_of (hg : g.WellFormed) (h : compute g = .ok first) {n : Nonterminal} {t : Terminal} :
    t ∈ (first.of n).terminals ↔ g.BeginsWith [.nonterminal n] t := by
  rw [← mem_ofSequence hg h, mem_ofSequence_singleton]

/-! ### Left recursion -/

private theorem vanishes_of_mem {u : List Symbol} (hu : g.Vanishes u) {x : Symbol} (hx : x ∈ u) :
    g.Vanishes [x] := by
  obtain ⟨a, b, rfl⟩ := List.append_of_mem hx
  exact (Grammar.vanishes_cons.mp (Grammar.vanishes_append.mp hu).2).1

/-- The left corners of a nonterminal whose set is done were done before it. -/
private theorem lookup_of_leftCorner (hg : g.WellFormed) (h : compute g = .ok first)
    {done : List (Nonterminal × FirstSet)} (hkeep : ∀ m f, done.lookup m = some f → (run g).done.lookup m = some f)
    {n b : Nonterminal} {f : FirstSet} (hf : knownChoice? done ((g.productionsOf n).map (·.2.rhs)) = some f)
    (hc : g.LeftCorner n b) : ∃ e, done.lookup b = some e := by
  obtain ⟨p, hp, u, v, rfl, hr, hu⟩ := hc
  have hmem : p.rhs ∈ (g.productionsOf p.lhs).map (·.2.rhs) := mem_rhss.mpr ⟨p, hp, rfl, rfl⟩
  obtain ⟨e, he, -⟩ := known?_of_mem hf hmem
  rw [hr] at he
  refine lookup_of_known? he (fun t ht => ?_) (fun m r hm hl => ?_)
  · exact Grammar.not_vanishes_terminal (vanishes_of_mem hu ht)
  · have hlt : m < g.nonterminals.length := hg.nonterminal_lt p hp m (by simp [hr, hm])
    have hnull := (nullable_of hg h).mpr (vanishes_of_mem hu hm)
    rw [of_eq_lookup h hlt, hkeep m r hl] at hnull
    exact hnull

private theorem acc_of_settled (hg : g.WellFormed) (h : compute g = .ok first)
    {done : List (Nonterminal × FirstSet)} (hs : Settled g done)
    (hkeep : ∀ m f, done.lookup m = some f → (run g).done.lookup m = some f) {n : Nonterminal} {f : FirstSet}
    (hn : done.lookup n = some f) : Acc (fun b a => g.LeftCorner a b) n := by
  -- the sets that are done are taken in the order in which they were done
  induction hs generalizing n f with
  | nil => simp at hn
  | @cons done m e _ hm he ih =>
    have hkeep' : ∀ k r, done.lookup k = some r → (run g).done.lookup k = some r :=
      fun k r hk => hkeep k r (lookup_cons_of_lookup hm hk)
    rw [List.lookup_cons] at hn
    split at hn
    · rename_i heq
      rw [eq_of_beq heq]
      refine Acc.intro m fun b hb => ?_
      obtain ⟨d, hd⟩ := lookup_of_leftCorner hg h hkeep' he hb
      exact ih hkeep' hd
    · exact ih hkeep' hn

/-- Left corners cannot be followed for ever. -/
theorem acc_leftCorner (hg : g.WellFormed) (h : compute g = .ok first) (n : Nonterminal) :
    Acc (fun b a => g.LeftCorner a b) n := by
  obtain ⟨hs, hall⟩ := settled_run hg (cycles_of_compute h)
  refine Acc.intro n fun b hb => ?_
  obtain ⟨p, hp, u, v, -, hr, -⟩ := hb
  obtain ⟨f, hf⟩ := hall b (hg.nonterminal_lt p hp b (by simp [hr]))
  exact acc_of_settled hg h hs (fun _ _ => id) hf

private theorem not_transGen_of_acc {n : Nonterminal} (h : Acc (fun b a => g.LeftCorner a b) n) :
    ¬ Relation.TransGen g.LeftCorner n n := by
  induction h with
  | intro n _ ih =>
    intro hn
    obtain ⟨b, hb, hrest⟩ := Relation.TransGen.head'_iff.mp hn
    exact ih b hb (Relation.TransGen.tail' hrest hb)

/-- A grammar has FIRST sets unless it is left-recursive. -/
theorem isOk_compute (hg : g.WellFormed) : (∃ first, compute g = .ok first) ↔ ¬ g.LeftRecursive := by
  constructor
  · rintro ⟨first, h⟩ ⟨n, hn⟩
    exact not_transGen_of_acc (acc_leftCorner hg h n) hn
  · intro hrec
    have hc : (run g).cycles = [] := by
      refine List.eq_nil_iff_forall_not_mem.mpr fun c hc => hrec ?_
      exact ((sound_run g).cycles c hc).leftRecursive
    simp only [compute, hc, if_true]
    exact ⟨_, rfl⟩

end FirstSets

end Predictive
