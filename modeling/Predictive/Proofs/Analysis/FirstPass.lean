import Mathlib.Data.List.Chain
import Predictive.Analysis.First
import Predictive.Proofs.Grammar.Derivation

/-!
# The pass over the nonterminals

What the depth-first pass behind FIRST keeps true.

* Whatever it has found is right: a set that is done tells only what its nonterminal derives, and a recorded cycle
  runs along left corners (`FirstPass.Sound`). The open nonterminals are a chain of left corners, so the
  one that closes a cycle is a left corner of itself.
* As long as no cycle is recorded nothing is missed: the sets that are done come in an order in which each is
  computed from the earlier ones alone (`Settled`). A set stays once it is done, and no open
  nonterminal is done, so an alternative is evaluated to the same set later on.
-/

namespace Predictive

/-! ### Cycles of left corners -/

namespace Grammar

/-- Some nonterminal is a left corner of itself, at any distance. -/
def LeftRecursive (g : Grammar) : Prop := ∃ n, Relation.TransGen g.LeftCorner n n

/-- A cycle of distinct nonterminals, each a left corner of the one before it and the first of the last. -/
structure IsCycle (g : Grammar) (cycle : List Nonterminal) : Prop where
  ne_nil : cycle ≠ []
  nodup : cycle.Nodup
  corners : (cycle ++ cycle.take 1).IsChain g.LeftCorner

private theorem transGen_of_isChain {r : Nat → Nat → Prop} {a b : Nat} {l : List Nat}
    (h : (a :: (l ++ [b])).IsChain r) : Relation.TransGen r a b := by
  induction l generalizing a with
  | nil =>
    rw [List.nil_append, List.isChain_pair] at h
    exact .single h
  | cons c l ih =>
    rw [List.cons_append, List.isChain_cons_cons] at h
    exact (Relation.TransGen.single h.1).trans (ih h.2)

theorem IsCycle.leftRecursive {g : Grammar} {cycle : List Nonterminal} (h : g.IsCycle cycle) :
    g.LeftRecursive := by
  obtain ⟨hne, -, hc⟩ := h
  cases cycle with
  | nil => exact absurd rfl hne
  | cons n rest => exact ⟨n, transGen_of_isChain (by simpa using hc)⟩

end Grammar

namespace FirstPass

/-- The nonterminal that closes a cycle on the stack of open ones does close one. -/
private theorem isCycle_cycleAt {g : Grammar} {stack : List Nonterminal} {n : Nonterminal} (hnd : stack.Nodup)
    (hc : (n :: stack).IsChain (fun b a => g.LeftCorner a b)) (hn : n ∈ stack) :
    g.IsCycle (cycleAt stack n) := by
  obtain ⟨front, back, rfl, hfront⟩ := List.eq_append_cons_of_mem hn
  have hne : ∀ a ∈ front, decide (a ≠ n) = true := by
    intro a ha
    rw [decide_eq_true_eq]
    rintro rfl
    exact hfront ha
  have htake : (front ++ n :: back).takeWhile (· ≠ n) = front := by
    rw [List.takeWhile_append_of_pos hne]
    simp
  have hrev : cycleAt (front ++ n :: back) n = n :: front.reverse := by rw [cycleAt, htake]
  rw [hrev]
  refine ⟨by simp, ?_, ?_⟩
  · have hperm : (n :: front.reverse).Perm (n :: front) := (List.reverse_perm front).cons n
    rw [hperm.nodup_iff, List.nodup_cons]
    exact ⟨hfront, (List.nodup_append.mp hnd).1⟩
  · have hpart : (n :: front ++ [n]).IsChain (fun b a => g.LeftCorner a b) := by
      refine hc.prefix ⟨back, ?_⟩
      simp
    have := List.isChain_reverse.mpr hpart
    simpa using this

end FirstPass

/-! ### What is found is right -/

/-- The set tells only what the sequence derives. -/
structure FirstSet.SoundFor (g : Grammar) (u : List Symbol) (f : FirstSet) : Prop where
  vanishes : f.nullable = true → g.Vanishes u
  begins : ∀ t ∈ f.terminals, g.BeginsWith u t

namespace FirstSet

variable {g : Grammar}

theorem SoundFor.empty {u : List Symbol} : SoundFor g u {} := ⟨by simp, by simp⟩

theorem SoundFor.nil : SoundFor g [] { nullable := true } := ⟨fun _ => Grammar.vanishes_nil, by simp⟩

theorem SoundFor.terminal {t : Terminal} {u : List Symbol} : SoundFor g (.terminal t :: u) { terminals := [t] } := by
  refine ⟨by simp, fun x hx => ?_⟩
  rw [List.mem_singleton.mp hx]
  exact Grammar.beginsWith_cons.mpr (Or.inl (Grammar.beginsWith_terminal.mpr rfl))

theorem SoundFor.cons {n : Nonterminal} {u : List Symbol} {f : FirstSet} (h : SoundFor g [.nonterminal n] f)
    (hn : f.nullable = false) : SoundFor g (.nonterminal n :: u) f :=
  ⟨by simp [hn], fun t ht => Grammar.beginsWith_cons.mpr (Or.inl (h.begins t ht))⟩

theorem SoundFor.before {n : Nonterminal} {u : List Symbol} {f r : FirstSet} (h : SoundFor g [.nonterminal n] f)
    (hn : f.nullable = true) (hr : SoundFor g u r) : SoundFor g (.nonterminal n :: u) (f.before r) := by
  refine ⟨fun hv => Grammar.vanishes_cons.mpr ⟨h.vanishes hn, hr.vanishes hv⟩, fun t ht => ?_⟩
  rw [Grammar.beginsWith_cons]
  rcases mem_union.mp ht with ht | ht
  · exact Or.inl (h.begins t ht)
  · exact Or.inr ⟨h.vanishes hn, hr.begins t ht⟩

theorem SoundFor.choice {u : List Symbol} {f r : FirstSet} (hf : SoundFor g u f) (hr : SoundFor g u r) :
    SoundFor g u (f.choice r) := by
  refine ⟨fun hv => ?_, fun t ht => ?_⟩
  · rcases Bool.or_eq_true_iff.mp hv with hv | hv
    · exact hf.vanishes hv
    · exact hr.vanishes hv
  · rcases mem_union.mp ht with ht | ht
    · exact hf.begins t ht
    · exact hr.begins t ht

theorem SoundFor.production {p : Production} {f : FirstSet} (hp : p ∈ g.productions) (h : SoundFor g p.rhs f) :
    SoundFor g [.nonterminal p.lhs] f :=
  ⟨fun hv => Grammar.vanishes_nonterminal.mpr ⟨p, hp, rfl, h.vanishes hv⟩,
    fun t ht => Grammar.beginsWith_nonterminal.mpr ⟨p, hp, rfl, h.begins t ht⟩⟩

end FirstSet

namespace FirstPass

variable {g : Grammar}

/-- The sets that are done tell only what their nonterminals derive, and the recorded cycles are cycles. -/
structure Sound (g : Grammar) (s : FirstPass) : Prop where
  done : ∀ n f, s.done.lookup n = some f → f.SoundFor g [.nonterminal n]
  cycles : ∀ c ∈ s.cycles, g.IsCycle c

private theorem Sound.record {s : FirstPass} (h : s.Sound g) {cycle : List Nonterminal} (hc : g.IsCycle cycle) :
    (s.record cycle).Sound g := by
  unfold FirstPass.record
  split
  · exact h
  · refine ⟨h.done, fun c hm => ?_⟩
    rcases List.mem_append.mp hm with hm | hm
    · exact h.cycles c hm
    · rw [List.mem_singleton.mp hm]
      exact hc

private theorem Sound.insert {s : FirstPass} (h : s.Sound g) {n : Nonterminal} {f : FirstSet}
    (hf : f.SoundFor g [.nonterminal n]) : ({ s with done := (n, f) :: s.done } : FirstPass).Sound g := by
  refine ⟨fun m e hm => ?_, h.cycles⟩
  rw [List.lookup_cons] at hm
  split at hm
  · rename_i he
    rw [eq_of_beq he, ← Option.some.inj hm]
    exact hf
  · exact h.done m e hm

section Sound

variable {visit : Nonterminal → FirstPass → FirstSet × FirstPass} {a : Nonterminal}
  (hv : ∀ n s, g.LeftCorner a n → s.Sound g →
    (visit n s).1.SoundFor g [.nonterminal n] ∧ (visit n s).2.Sound g)

include hv

/-- A right-hand side of `a` is evaluated from the left; `u` is the part that is done with and vanishes. -/
private theorem sound_sequence {p : Production} (hp : p ∈ g.productions) (ha : p.lhs = a) {u rest : List Symbol}
    {s : FirstPass} (hu : g.Vanishes u) (hr : p.rhs = u ++ rest) (hs : s.Sound g) :
    (FirstSet.sequence visit rest s).1.SoundFor g rest ∧ (FirstSet.sequence visit rest s).2.Sound g := by
  induction rest generalizing u s with
  | nil => exact ⟨.nil, hs⟩
  | cons x rest ih =>
    cases x with
    | terminal t => exact ⟨.terminal, hs⟩
    | nonterminal n =>
      obtain ⟨hf, hs'⟩ := hv n s ⟨p, hp, u, rest, ha, hr, hu⟩ hs
      simp only [FirstSet.sequence]
      split
      · rename_i hn
        have hu' : g.Vanishes (u ++ [.nonterminal n]) := Grammar.vanishes_append.mpr ⟨hu, hf.vanishes hn⟩
        obtain ⟨hfr, hsr⟩ := ih hu' (by simpa using hr) hs'
        exact ⟨hf.before hn hfr, hsr⟩
      · rename_i hn
        exact ⟨hf.cons (by simpa using hn), hs'⟩

private theorem sound_choices {rhss : List (List Symbol)} {s : FirstPass}
    (hr : ∀ rhs ∈ rhss, ∃ p ∈ g.productions, p.lhs = a ∧ p.rhs = rhs) (hs : s.Sound g) :
    (FirstSet.choices visit rhss s).1.SoundFor g [.nonterminal a] ∧ (FirstSet.choices visit rhss s).2.Sound g := by
  induction rhss generalizing s with
  | nil => exact ⟨.empty, hs⟩
  | cons rhs rest ih =>
    obtain ⟨p, hp, ha, rfl⟩ := hr rhs (by simp)
    obtain ⟨hf, hs'⟩ := sound_sequence hv hp ha (u := []) Grammar.vanishes_nil rfl hs
    obtain ⟨hfr, hsr⟩ := ih (fun rhs h => hr rhs (by simp [h])) hs'
    exact ⟨(ha ▸ hf.production hp).choice hfr, hsr⟩

end Sound

theorem mem_rhss {n : Nonterminal} {rhs : List Symbol} :
    rhs ∈ (g.productionsOf n).map (·.2.rhs) ↔ ∃ p ∈ g.productions, p.lhs = n ∧ p.rhs = rhs := by
  constructor
  · intro h
    obtain ⟨⟨id, p⟩, hm, rfl⟩ := List.mem_map.mp h
    obtain ⟨hp, hn⟩ := g.exists_mem_productionsOf.mp ⟨id, hm⟩
    exact ⟨p, hp, hn, rfl⟩
  · rintro ⟨p, hp, hn, rfl⟩
    obtain ⟨id, hm⟩ := g.exists_mem_productionsOf.mpr ⟨hp, hn⟩
    exact List.mem_map.mpr ⟨(id, p), hm, rfl⟩

/-- A visit keeps what is found right, as long as each open nonterminal is a left corner of the one opened
before it. -/
theorem sound_visit {fuel : Nat} {stack : List Nonterminal} {n : Nonterminal} {s : FirstPass}
    (hnd : stack.Nodup) (hc : (n :: stack).IsChain (fun b a => g.LeftCorner a b)) (hs : s.Sound g) :
    (visit g fuel stack n s).1.SoundFor g [.nonterminal n] ∧ (visit g fuel stack n s).2.Sound g := by
  induction fuel generalizing stack n s with
  | zero => exact ⟨.empty, hs⟩
  | succ fuel ih =>
    unfold visit
    split
    · rename_i f hf
      exact ⟨hs.done n f hf, hs⟩
    · split
      · rename_i hn
        exact ⟨.empty, hs.record (isCycle_cycleAt hnd hc hn)⟩
      · rename_i hn
        -- what is visited next is a left corner of `n`, so the open nonterminals stay a chain
        have hv : ∀ m s, g.LeftCorner n m → s.Sound g → (visit g fuel (n :: stack) m s).1.SoundFor g
            [.nonterminal m] ∧ (visit g fuel (n :: stack) m s).2.Sound g := fun m s hm hs =>
          ih (List.nodup_cons.mpr ⟨hn, hnd⟩) (List.isChain_cons_cons.mpr ⟨hm, hc⟩) hs
        obtain ⟨hf, hs'⟩ := sound_choices hv (fun rhs h => mem_rhss.mp h) hs
        exact ⟨hf, hs'.insert hf⟩

private theorem sound_foldl {fuel : Nat} {l : List Nonterminal} {s : FirstPass} (hs : s.Sound g) :
    (l.foldl (fun s n => (visit g fuel [] n s).2) s).Sound g := by
  induction l generalizing s with
  | nil => exact hs
  | cons n l ih => exact ih (sound_visit List.nodup_nil (.singleton n) hs).2

theorem sound_run (g : Grammar) : (run g).Sound g := sound_foldl ⟨by simp, by simp⟩

end FirstPass

/-! ### What is done stays -/

namespace FirstSet

variable {σ : Type} {visit : Nonterminal → σ → FirstSet × σ} (I : σ → Prop)

/-- What the visits of a sequence keep true of the state, the sequence keeps true. -/
theorem sequence_keeps_of_mem {symbols : List Symbol}
    (hv : ∀ n, .nonterminal n ∈ symbols → ∀ s, I s → I (visit n s).2) {s : σ} (hs : I s) :
    I (sequence visit symbols s).2 := by
  induction symbols generalizing s with
  | nil => exact hs
  | cons x symbols ih =>
    cases x with
    | terminal t => exact hs
    | nonterminal n =>
      have hs' := hv n List.mem_cons_self s hs
      simp only [sequence]
      split
      · exact ih (fun m hm => hv m (List.mem_cons_of_mem _ hm)) hs'
      · exact hs'

theorem choices_keeps_of_mem {rhss : List (List Symbol)}
    (hv : ∀ rhs ∈ rhss, ∀ n, .nonterminal n ∈ rhs → ∀ s, I s → I (visit n s).2) {s : σ} (hs : I s) :
    I (choices visit rhss s).2 := by
  induction rhss generalizing s with
  | nil => exact hs
  | cons rhs rest ih =>
    exact ih (fun r hr => hv r (List.mem_cons_of_mem rhs hr)) (sequence_keeps_of_mem I (hv rhs List.mem_cons_self) hs)

/-- What every visit keeps true of the state, a sequence of visits keeps true. -/
theorem sequence_keeps (hv : ∀ n s, I s → I (visit n s).2) {symbols : List Symbol} {s : σ} (hs : I s) :
    I (sequence visit symbols s).2 := sequence_keeps_of_mem I (fun n _ => hv n) hs

theorem choices_keeps (hv : ∀ n s, I s → I (visit n s).2) {rhss : List (List Symbol)} {s : σ} (hs : I s) :
    I (choices visit rhss s).2 := choices_keeps_of_mem I (fun _ _ n _ => hv n) hs

end FirstSet

namespace FirstPass

variable {g : Grammar} {fuel : Nat} {stack : List Nonterminal} {n : Nonterminal} {s : FirstPass}

@[simp] theorem done_record (s : FirstPass) (cycle : List Nonterminal) :
    (s.record cycle).done = s.done := by
  unfold record; split <;> rfl

/-- What recording a cycle keeps true of the list of cycles, a visit keeps true. -/
theorem visit_keeps_cycles (I : List (List Nonterminal) → Prop)
    (hrecord : ∀ (s : FirstPass) (cycle : List Nonterminal), I s.cycles → I (s.record cycle).cycles)
    (h : I s.cycles) : I (visit g fuel stack n s).2.cycles := by
  induction fuel generalizing stack n s with
  | zero => exact h
  | succ fuel ih =>
    unfold visit
    split
    · exact h
    · split
      · exact hrecord s _ h
      · exact FirstSet.choices_keeps (fun s : FirstPass => I s.cycles) (fun m s hs => ih hs) h

private theorem cycles_record (s : FirstPass) (cycle : List Nonterminal) : (s.record cycle).cycles ≠ [] := by
  unfold record
  split
  · rename_i h
    intro hnil
    rw [hnil] at h
    simp at h
  · simp

/-- A recorded cycle is never forgotten. -/
private theorem cycles_visit (h : s.cycles ≠ []) : (visit g fuel stack n s).2.cycles ≠ [] :=
  visit_keeps_cycles (· ≠ []) (fun s cycle _ => cycles_record s cycle) h

/-- A set that is done stays as it is. -/
theorem lookup_visit {m : Nonterminal} {f : FirstSet} (h : s.done.lookup m = some f) :
    (visit g fuel stack n s).2.done.lookup m = some f := by
  induction fuel generalizing stack n s with
  | zero => exact h
  | succ fuel ih =>
    unfold visit
    split
    · exact h
    · rename_i hnone
      split
      · simpa using h
      · have hm : m ≠ n := by
          rintro rfl
          rw [hnone] at h
          simp at h
        rw [List.lookup_cons, beq_false_of_ne hm]
        exact FirstSet.choices_keeps (fun s : FirstPass => s.done.lookup m = some f) (fun k s hs => ih hs) h

/-- No open nonterminal is done. -/
private theorem lookup_visit_open {m : Nonterminal} (hm : m ∈ stack) (h : s.done.lookup m = none) :
    (visit g fuel stack n s).2.done.lookup m = none := by
  induction fuel generalizing stack n s with
  | zero => exact h
  | succ fuel ih =>
    unfold visit
    split
    · exact h
    · split
      · simpa using h
      · rename_i hn
        have hmn : m ≠ n := by
          rintro rfl
          exact hn hm
        have hopen : m ∈ n :: stack := List.mem_cons_of_mem n hm
        rw [List.lookup_cons, beq_false_of_ne hmn]
        exact FirstSet.choices_keeps (fun s : FirstPass => s.done.lookup m = none) (fun k s hs => ih hopen hs) h

/-! ### Nothing is missed -/

/-- FIRST of a sequence by the sets that are done; `none` where one that is needed is missing. -/
def known? (done : List (Nonterminal × FirstSet)) : List Symbol → Option FirstSet
  | [] => some { nullable := true }
  | .terminal t :: _ => some { terminals := [t] }
  | .nonterminal n :: rest =>
    match done.lookup n with
    | none => none
    | some f => if f.nullable then (known? done rest).map f.before else some f

/-- FIRST of a choice between sequences by the sets that are done. -/
def knownChoice? (done : List (Nonterminal × FirstSet)) : List (List Symbol) → Option FirstSet
  | [] => some {}
  | rhs :: rest =>
    match known? done rhs, knownChoice? done rest with
    | some f, some r => some (f.choice r)
    | _, _ => none

theorem known?_mono {done more : List (Nonterminal × FirstSet)}
    (h : ∀ n f, done.lookup n = some f → more.lookup n = some f) {symbols : List Symbol} {f : FirstSet}
    (hk : known? done symbols = some f) : known? more symbols = some f := by
  induction symbols generalizing f with
  | nil => exact hk
  | cons x rest ih =>
    cases x with
    | terminal t => exact hk
    | nonterminal n =>
      simp only [known?] at hk ⊢
      split at hk
      · simp at hk
      · rename_i e he
        rw [h n e he]
        split at hk
        · rename_i hn
          obtain ⟨r, hr, rfl⟩ := Option.map_eq_some_iff.mp hk
          simp [hn, ih hr]
        · rename_i hn
          simpa [hn] using hk

theorem knownChoice?_cons {done : List (Nonterminal × FirstSet)} {rhs : List Symbol} {rest : List (List Symbol)}
    {f : FirstSet} : knownChoice? done (rhs :: rest) = some f ↔
      ∃ e r, known? done rhs = some e ∧ knownChoice? done rest = some r ∧ e.choice r = f := by
  simp only [knownChoice?]
  split
  · simp [*]
  · rename_i hnone
    constructor
    · simp
    · rintro ⟨e, r, he, hr, -⟩
      exact (hnone e r he hr).elim

theorem knownChoice?_mono {done more : List (Nonterminal × FirstSet)}
    (h : ∀ n f, done.lookup n = some f → more.lookup n = some f) {rhss : List (List Symbol)} {f : FirstSet}
    (hk : knownChoice? done rhss = some f) : knownChoice? more rhss = some f := by
  induction rhss generalizing f with
  | nil => exact hk
  | cons rhs rest ih =>
    obtain ⟨e, r, he, hr, hf⟩ := knownChoice?_cons.mp hk
    exact knownChoice?_cons.mpr ⟨e, r, known?_mono h he, ih hr, hf⟩

/-- Each set that is done is the choice between the alternatives of its nonterminal, by the sets done before it. -/
inductive Settled (g : Grammar) : List (Nonterminal × FirstSet) → Prop where
  | nil : Settled g []
  | cons {done : List (Nonterminal × FirstSet)} {n : Nonterminal} {f : FirstSet} (hs : Settled g done)
    (hn : done.lookup n = none) (hf : knownChoice? done ((g.productionsOf n).map (·.2.rhs)) = some f) :
    Settled g ((n, f) :: done)

/-- A set that is done is still found after one more is. -/
theorem lookup_cons_of_lookup {done : List (Nonterminal × FirstSet)} {n m : Nonterminal} {e f : FirstSet}
    (hn : done.lookup n = none) (hm : done.lookup m = some f) : ((n, e) :: done).lookup m = some f := by
  have hne : m ≠ n := by
    rintro rfl
    rw [hn] at hm
    simp at hm
  rw [List.lookup_cons, beq_false_of_ne hne]
  exact hm

section Settled

variable (hv : ∀ n s, n < g.nonterminals.length → (∀ m ∈ stack, s.done.lookup m = none) → Settled g s.done →
    (visit g fuel stack n s).2.cycles = [] →
    Settled g (visit g fuel stack n s).2.done ∧
      (visit g fuel stack n s).2.done.lookup n = some (visit g fuel stack n s).1)

include hv

private theorem settled_sequence {symbols : List Symbol}
    (hr : ∀ n, .nonterminal n ∈ symbols → n < g.nonterminals.length)
    (hopen : ∀ m ∈ stack, s.done.lookup m = none) (hs : Settled g s.done)
    (hc : (FirstSet.sequence (visit g fuel stack) symbols s).2.cycles = []) :
    Settled g (FirstSet.sequence (visit g fuel stack) symbols s).2.done ∧
      known? (FirstSet.sequence (visit g fuel stack) symbols s).2.done symbols =
        some (FirstSet.sequence (visit g fuel stack) symbols s).1 := by
  induction symbols generalizing s with
  | nil => exact ⟨hs, rfl⟩
  | cons x rest ih =>
    cases x with
    | terminal t => exact ⟨hs, rfl⟩
    | nonterminal n =>
      have hn := hr n (by simp)
      by_cases hnull : (visit g fuel stack n s).1.nullable = true
      · simp only [FirstSet.sequence, hnull, if_true] at hc ⊢
        have hc₁ : (visit g fuel stack n s).2.cycles = [] := by
          refine Decidable.byContradiction fun h => ?_
          exact FirstSet.sequence_keeps (fun s : FirstPass => s.cycles ≠ []) (fun m s => cycles_visit) h hc
        obtain ⟨hs₁, hl₁⟩ := hv n s hn hopen hs hc₁
        obtain ⟨hs₂, hk⟩ := ih (fun m hm => hr m (by simp [hm]))
          (fun m hm => lookup_visit_open hm (hopen m hm)) hs₁ hc
        have hl₂ : (FirstSet.sequence (visit g fuel stack) rest (visit g fuel stack n s).2).2.done.lookup n =
            some (visit g fuel stack n s).1 :=
          FirstSet.sequence_keeps (fun t : FirstPass => t.done.lookup n = some (visit g fuel stack n s).1)
            (fun m s => lookup_visit) hl₁
        exact ⟨hs₂, by simp [known?, hl₂, hnull, hk]⟩
      · simp only [FirstSet.sequence, hnull] at hc ⊢
        obtain ⟨hs₁, hl₁⟩ := hv n s hn hopen hs hc
        exact ⟨hs₁, by simp [known?, hl₁, hnull]⟩

private theorem settled_choices {rhss : List (List Symbol)}
    (hr : ∀ rhs ∈ rhss, ∀ n, .nonterminal n ∈ rhs → n < g.nonterminals.length)
    (hopen : ∀ m ∈ stack, s.done.lookup m = none) (hs : Settled g s.done)
    (hc : (FirstSet.choices (visit g fuel stack) rhss s).2.cycles = []) :
    Settled g (FirstSet.choices (visit g fuel stack) rhss s).2.done ∧
      knownChoice? (FirstSet.choices (visit g fuel stack) rhss s).2.done rhss =
        some (FirstSet.choices (visit g fuel stack) rhss s).1 := by
  induction rhss generalizing s with
  | nil => exact ⟨hs, rfl⟩
  | cons rhs rest ih =>
    simp only [FirstSet.choices] at hc ⊢
    have hc₁ : (FirstSet.sequence (visit g fuel stack) rhs s).2.cycles = [] := by
      refine Decidable.byContradiction fun h => ?_
      exact FirstSet.choices_keeps (fun s : FirstPass => s.cycles ≠ []) (fun m s => cycles_visit) h hc
    obtain ⟨hs₁, hk₁⟩ := settled_sequence hv (hr rhs (by simp)) hopen hs hc₁
    have hopen₁ : ∀ m ∈ stack, (FirstSet.sequence (visit g fuel stack) rhs s).2.done.lookup m = none :=
      fun m hm => FirstSet.sequence_keeps (fun s : FirstPass => s.done.lookup m = none)
        (fun k s => lookup_visit_open hm) (hopen m hm)
    obtain ⟨hs₂, hk₂⟩ := ih (fun rhs h => hr rhs (by simp [h])) hopen₁ hs₁ hc
    refine ⟨hs₂, knownChoice?_cons.mpr ⟨_, _, known?_mono (fun m f hm => ?_) hk₁, hk₂, rfl⟩⟩
    exact FirstSet.choices_keeps (fun s : FirstPass => s.done.lookup m = some f) (fun k s => lookup_visit) hm

end Settled

/-- Open nonterminals are distinct, so there are no more of them than nonterminals. -/
theorem length_le_of_open (hnd : stack.Nodup) (hlt : ∀ m ∈ stack, m < g.nonterminals.length) :
    stack.length ≤ g.nonterminals.length := by
  have hsub : stack ⊆ List.range g.nonterminals.length := fun m hm => List.mem_range.mpr (hlt m hm)
  simpa using hnd.length_le_of_subset hsub

/-- A visit that records no cycle computes the set of its nonterminal from sets that are done. -/
theorem settled_visit (hg : g.WellFormed) (hfuel : g.nonterminals.length < fuel + stack.length)
    (hnd : stack.Nodup) (hlt : ∀ m ∈ stack, m < g.nonterminals.length) (hn : n < g.nonterminals.length)
    (hopen : ∀ m ∈ stack, s.done.lookup m = none) (hs : Settled g s.done)
    (hc : (visit g fuel stack n s).2.cycles = []) :
    Settled g (visit g fuel stack n s).2.done ∧
      (visit g fuel stack n s).2.done.lookup n = some (visit g fuel stack n s).1 := by
  induction fuel generalizing stack n s with
  | zero =>
    -- open nonterminals are distinct, so the fuel outlasts them
    have := length_le_of_open hnd hlt
    omega
  | succ fuel ih =>
    unfold visit at hc ⊢
    split at hc
    · rename_i f hf
      exact ⟨hs, hf⟩
    · rename_i hnone
      split at hc
      · exact (cycles_record s _ hc).elim
      · rename_i hns
        simp only [hns, if_false] at hc ⊢
        have hlt' : ∀ m ∈ n :: stack, m < g.nonterminals.length := List.forall_mem_cons.mpr ⟨hn, hlt⟩
        have hopen' : ∀ m ∈ n :: stack, s.done.lookup m = none := List.forall_mem_cons.mpr ⟨hnone, hopen⟩
        have hr : ∀ rhs ∈ (g.productionsOf n).map (·.2.rhs), ∀ m, .nonterminal m ∈ rhs →
            m < g.nonterminals.length := by
          intro rhs hrhs
          obtain ⟨p, hp, -, rfl⟩ := mem_rhss.mp hrhs
          exact hg.nonterminal_lt p hp
        obtain ⟨hs', hk⟩ := settled_choices (fun m s hm hopen hs hc => ih (by simp; omega)
          (List.nodup_cons.mpr ⟨hns, hnd⟩) hlt' hm hopen hs hc) hr hopen' hs hc
        -- `n` itself was open, so its set was not done on the way
        have hnew : (FirstSet.choices (visit g fuel (n :: stack)) ((g.productionsOf n).map (·.2.rhs)) s).2.done.lookup
            n = none :=
          FirstSet.choices_keeps (fun s : FirstPass => s.done.lookup n = none)
            (fun k s => lookup_visit_open (by simp)) hnone
        exact ⟨hs'.cons hnew hk, by simp⟩

private theorem cycles_foldl {l : List Nonterminal} (h : s.cycles ≠ []) :
    (l.foldl (fun s n => (visit g fuel stack n s).2) s).cycles ≠ [] := by
  induction l generalizing s with
  | nil => exact h
  | cons k l ih => exact ih (cycles_visit h)

private theorem settled_foldl (hg : g.WellFormed) (hfuel : g.nonterminals.length < fuel) {l : List Nonterminal}
    (hlt : ∀ n ∈ l, n < g.nonterminals.length) (hs : Settled g s.done)
    (hc : (l.foldl (fun s n => (visit g fuel [] n s).2) s).cycles = []) :
    Settled g (l.foldl (fun s n => (visit g fuel [] n s).2) s).done ∧
      ∀ n, n ∈ l ∨ (∃ f, s.done.lookup n = some f) →
        ∃ f, (l.foldl (fun s n => (visit g fuel [] n s).2) s).done.lookup n = some f := by
  induction l generalizing s with
  | nil => exact ⟨hs, fun n hn => by simpa using hn⟩
  | cons k l ih =>
    rw [List.foldl_cons] at hc ⊢
    have hc₁ : (visit g fuel [] k s).2.cycles = [] := Decidable.byContradiction fun h => cycles_foldl h hc
    obtain ⟨hs₁, hk⟩ := settled_visit hg hfuel List.nodup_nil (by simp) (hlt k (by simp)) (by simp) hs hc₁
    obtain ⟨hs₂, hall⟩ := ih (fun n hn => hlt n (by simp [hn])) hs₁ hc
    refine ⟨hs₂, fun n hn => hall n ?_⟩
    rcases hn with hn | ⟨f, hf⟩
    · rcases List.mem_cons.mp hn with rfl | hn
      · exact Or.inr ⟨_, hk⟩
      · exact Or.inl hn
    · exact Or.inr ⟨f, lookup_visit hf⟩

/-- A pass without cycles computes the set of every nonterminal. -/
theorem settled_run (hg : g.WellFormed) (hc : (run g).cycles = []) :
    Settled g (run g).done ∧ ∀ n < g.nonterminals.length, ∃ f, (run g).done.lookup n = some f := by
  have hids : ∀ n, n ∈ g.nonterminalIds ↔ n < g.nonterminals.length := by simp [Grammar.nonterminalIds]
  obtain ⟨hs, hall⟩ := settled_foldl hg (Nat.lt_succ_self _) (fun n hn => (hids n).mp hn) .nil hc
  exact ⟨hs, fun n hn => hall n (Or.inl ((hids n).mpr hn))⟩

end FirstPass

end Predictive
