import Predictive.Proofs.Layout.RawHash
import Predictive.Proofs.Search.Improvements
import Predictive.Proofs.Search.Outcome

/-!
# Searches without collisions

A grammar that has room at a shift has no more symbols of either kind than the low bits of a raw hash can count
(`Grammar.HasRoom`). Then no two keys have one raw hash, whichever symbol is the major one and whatever the orders are, so
no trial fails (`Problem.not_collides_of_hasRoom`). A search whose trials do not fail can only be ended early by its sink
(`Search.EndedBySink`), however long it is (`Search.hasRoom_never_collides`).
-/

namespace Predictive

/-- The positions of the symbols of either kind have room below a shift of at most 32. -/
structure Grammar.HasRoom (g : Grammar) (shift : Nat) : Prop where
  shift_le : shift ≤ 32
  terminals : g.terminals.length ≤ 2 ^ shift
  nonterminals : g.nonterminals.length ≤ 2 ^ shift

/-! ### Trials -/

section Trials

variable {g : Grammar} {o : Orders} {shift : Nat}

private theorem idxOf_lt_of_perm_range {order : List Nat} {n i : Nat} (h : order.Perm (List.range n)) (hi : i < n) :
    i ∈ order ∧ order.idxOf i < n := by
  have hmem : i ∈ order := h.mem_iff.mpr (List.mem_range.mpr hi)
  have hlength : order.length = n := by rw [h.length_eq, List.length_range]
  exact ⟨hmem, hlength ▸ List.idxOf_lt_length_of_mem hmem⟩

/-- Keys of symbols of the grammar have raw hashes of their own. -/
private theorem Grammar.HasRoom.hash_inj (hroom : g.HasRoom shift) (ho : o.Permute g) (major : Major) {k k' : Key}
    (hk : k.1 < g.nonterminals.length ∧ k.2 < g.terminals.length)
    (hk' : k'.1 < g.nonterminals.length ∧ k'.2 < g.terminals.length)
    (h : o.hash shift major k = o.hash shift major k') : k = k' := by
  have hs := hroom.shift_le
  have hpow : 2 ^ shift ≤ 2 ^ 32 := Nat.pow_le_pow_right (by decide) hs
  have hterminals := hroom.terminals
  have hnonterminals := hroom.nonterminals
  obtain ⟨hn, hnlt⟩ := idxOf_lt_of_perm_range ho.nonterminals hk.1
  obtain ⟨ht, htlt⟩ := idxOf_lt_of_perm_range ho.terminals hk.2
  obtain ⟨-, hnlt'⟩ := idxOf_lt_of_perm_range ho.nonterminals hk'.1
  obtain ⟨-, htlt'⟩ := idxOf_lt_of_perm_range ho.terminals hk'.2
  have hlow : major.low (o.nonterminals.idxOf k.1) (o.terminals.idxOf k.2) < 2 ^ shift := by
    cases major with
    | nonterminal => exact htlt.trans_le hterminals
    | terminal => exact hnlt.trans_le hnonterminals
  have hlow' : major.low (o.nonterminals.idxOf k'.1) (o.terminals.idxOf k'.2) < 2 ^ shift := by
    cases major with
    | nonterminal => exact htlt'.trans_le hterminals
    | terminal => exact hnlt'.trans_le hnonterminals
  obtain ⟨hnt, htt⟩ := rawHash_inj major hs (by omega) (by omega) (by omega) (by omega) hlow hlow' h
  exact Prod.ext (idxOf_inj_of_mem hn hnt) (idxOf_inj_of_mem ht htt)

variable {c : Compiled} (hc : Compiled.compile g = .ok c) (ho : o.Permute g)

include hc ho

theorem Problem.not_collides_of_hasRoom {shift : UInt32} (hroom : g.HasRoom shift.toNat) :
    ¬ (Problem.of g c.table shift).Collides o := by
  rw [Problem.collides_iff hc ho]
  rintro ⟨major, k, hk, k', hk', hne, heq⟩
  have hlt := Table.key_lt (Compiled.build_of_compile hc) hk
  have hlt' := Table.key_lt (Compiled.build_of_compile hc) hk'
  exact hne (hroom.hash_inj ho major hlt hlt' heq)

/-- The keys have raw hashes of their own, and no trial fails. -/
private theorem Problem.exists_trial_of_hasRoom {shift : UInt32} (hroom : g.HasRoom shift.toNat) :
    (∀ major, (c.table.keys.map (o.hash shift.toNat major)).Nodup ∧
        rawHashes g c.table (.ofOrders o.terminals o.nonterminals) major shift.toNat =
          .ok (c.table.keys.map (o.hash shift.toNat major))) ∧
      ∀ bound stamps, ∃ found, (Problem.of g c.table shift).trial o bound stamps = .ok found := by
  have hs : shift.toNat < 64 := Nat.lt_of_le_of_lt hroom.shift_le (by decide)
  have hnodup : ∀ major, ((Problem.of g c.table shift).hashes o major).Nodup := by
    intro major
    by_contra hdup
    exact Problem.not_collides_of_hasRoom hc ho hroom ⟨major, hdup⟩
  have hraws : ∀ major, rawHashes g c.table (.ofOrders o.terminals o.nonterminals) major shift.toNat =
      .ok ((Problem.of g c.table shift).hashes o major) := fun major => rawHashes_of_nodup hs (hnodup major)
  have hhashes : ∀ major, (Problem.of g c.table shift).hashes o major =
      c.table.keys.map (o.hash shift.toNat major) := Problem.hashes_eq hc ho
  refine ⟨fun major => hhashes major ▸ ⟨hnodup major, hraws major⟩, ?_⟩
  intro bound stamps
  have hn : rawHashes (Problem.of g c.table shift).grammar (Problem.of g c.table shift).table
      (.ofOrders o.terminals o.nonterminals) .nonterminal (Problem.of g c.table shift).shift.toNat = .ok _ :=
    hraws .nonterminal
  have ht : rawHashes (Problem.of g c.table shift).grammar (Problem.of g c.table shift).table
      (.ofOrders o.terminals o.nonterminals) .terminal (Problem.of g c.table shift).shift.toNat = .ok _ :=
    hraws .terminal
  simp only [Problem.trial, hn, ht, bind, Except.bind, pure, Except.pure]
  exact ⟨_, rfl⟩

end Trials

/-! ### Searches -/

variable {σ τ : Type}

/-- Where handing layouts on stops with an error, one of them was refused with it. -/
theorem Sink.exists_refused {accept : Sink σ} {ls : List Layout} {sink : σ} {e : Error}
    (h : (accept.feed ls sink).1 = .error e) : ∃ sink', ∃ l ∈ ls, (accept sink' l).1 = .error e := by
  induction ls generalizing sink with
  | nil => simp [feed] at h
  | cons l ls ih =>
    rw [feed] at h
    rcases haccept : accept sink l with ⟨e' | _, sink'⟩
    · rw [haccept] at h
      exact ⟨sink, l, List.mem_cons_self, by rw [haccept]; exact h⟩
    · rw [haccept] at h
      obtain ⟨sink'', l', hmem, hrefused⟩ := ih h
      exact ⟨sink'', l', List.mem_cons_of_mem l hmem, hrefused⟩

namespace Search

/-- If a search ends with an error, the sink refused a layout with it. -/
def EndedBySink (accept : Sink σ) (e : SearchEnd σ) : Prop :=
  ∀ err, e.outcome = .error err → ∃ sink l, (accept sink l).1 = .error err

private theorem EndsWith.endedBySink {accept : Sink σ} {e : SearchEnd σ} {ls : List Layout} {sink : σ}
    {s : SearchState} (h : EndsWith e (accept.feed ls sink) (.ok s)) : EndedBySink accept e := by
  intro err herr
  rw [h.2] at herr
  rcases bind_eq_error.mp herr with hfeed | ⟨_, _, hok⟩
  · obtain ⟨sink', l, -, hrefused⟩ := Sink.exists_refused hfeed
    exact ⟨sink', l, hrefused⟩
  · simp at hok

section Runs

variable {p : Problem} (hs : p.shift.toNat < 64) (accept : Sink σ)

include hs

private theorem endedBySink_runStream (every n : Nat) {orders : τ → Orders} {next : τ → τ} {stream : τ}
    (hno : ∀ k, ¬ p.Collides (orders (next^[k] stream))) (s : SearchState) (sink : σ) :
    EndedBySink accept (runStream p every accept orders next n stream {} s sink) :=
  EndsWith.endedBySink (runStream_eq hs Stamps.valid_empty (.completes fun j _ => hno j))

/-- Rounds of trials that do not fail hand some layouts on and go on. -/
private theorem exists_endsWith_roundsFrom (options : SearchOptions) {orders : Nat → Orders}
    (hno : ∀ k, ¬ p.Collides (orders k)) (fuel : Nat) (s : SearchState) :
    ∃ ls s', ∀ sink, EndsWith (roundsFrom p options accept orders fuel s sink) (accept.feed ls sink) (.ok s') := by
  induction fuel generalizing s with
  | zero => exact ⟨[], s, fun _ => ⟨rfl, rfl⟩⟩
  | succ fuel ih =>
    obtain ⟨size, hsize⟩ : ∃ size, min (max options.workers 1) (s.budget options.maxTrials) = size := ⟨_, rfl⟩
    by_cases hpos : size = 0
    · refine ⟨[], s, fun sink => ?_⟩
      rw [roundsFrom, hsize]
      simp only
      rw [if_pos hpos]
      exact ⟨rfl, rfl⟩
    · obtain ⟨ls, s', hrest⟩ := ih (p.after (ordersLeft orders s) s size)
      exact ⟨_, s', roundsFrom_succ hs hsize hpos (fun j _ => hno (s.trials + j)) hrest⟩

private theorem endedBySink_runRounds (options : SearchOptions) {orders : Nat → Orders}
    (hno : ∀ k, ¬ p.Collides (orders k)) (s : SearchState) (sink : σ) :
    EndedBySink accept (runRounds p options accept orders s sink) := by
  obtain ⟨ls, s', hends⟩ := exists_endsWith_roundsFrom hs accept options hno (s.budget options.maxTrials) s
  exact (hends sink).endedBySink

end Runs

/-- Raw hashes of positions of 32 bits fit into 64, and up to a shift of 32 no bit is lost, so that positions with room
below the shift can be read off. A compiled grammar whose symbols have room at its shift therefore has distinct raw
hashes in all orders, and no trial of a search for it fails: only the sink can end a search early. -/
theorem hasRoom_never_collides :
    (∀ (major : Major) (shift : Nat) (nt t : UInt32), shift < 64 →
      rawHash major shift nt.toNat t.toNat < 2 ^ 64 ∧
        (rawWord major shift nt t).toNat = rawHash major shift nt.toNat t.toNat) ∧
    (∀ (major : Major) (shift : Nat) (nt t : UInt32), shift ≤ 32 →
      rawHash major shift nt.toNat t.toNat = (major.high nt t).toNat * 2 ^ shift + (major.low nt t).toNat) ∧
    (∀ (major : Major) (shift : Nat) (nt t nt' t' : UInt32), shift ≤ 32 →
      (major.low nt t).toNat < 2 ^ shift → (major.low nt' t').toNat < 2 ^ shift →
      rawHash major shift nt.toNat t.toNat = rawHash major shift nt'.toNat t'.toNat → nt = nt' ∧ t = t') ∧
    ∀ (g : Grammar) (c : Compiled) (shift : UInt32), Compiled.compile g = .ok c → g.HasRoom shift.toNat →
      (∀ o : Orders, o.Permute g →
        (∀ major, (c.table.keys.map (o.hash shift.toNat major)).Nodup ∧
          rawHashes g c.table (.ofOrders o.terminals o.nonterminals) major shift.toNat =
            .ok (c.table.keys.map (o.hash shift.toNat major))) ∧
        ∀ bound stamps, ∃ found, (Problem.of g c.table shift).trial o bound stamps = .ok found) ∧
      ∀ (σ τ : Type) (r : Shuffler) (accept : Sink σ) (s : SearchState) (sink : σ),
        (∀ options, EndedBySink accept (run r (Problem.of g c.table shift) options accept s sink)) ∧
        (∀ options, EndedBySink accept (runParallel r (Problem.of g c.table shift) options accept s sink)) ∧
        (∀ (every n : Nat) (orders : τ → Orders) (next : τ → τ) (stream : τ),
          (∀ k, (orders (next^[k] stream)).Permute g) → EndedBySink accept
            (runStream (Problem.of g c.table shift) every accept orders next n stream {} s sink)) ∧
        ∀ (options : SearchOptions) (orders : Nat → Orders), (∀ k, (orders k).Permute g) →
          EndedBySink accept (runRounds (Problem.of g c.table shift) options accept orders s sink) := by
  refine ⟨?_, ?_, ?_, ?_⟩
  · intro major shift nt t hs
    exact ⟨rawHash_lt major nt.toNat_lt t.toNat_lt hs, toNat_rawWord major hs nt t⟩
  · intro major shift nt t hs
    rw [rawHash_eq major hs nt.toNat_lt t.toNat_lt]
    cases major <;> rfl
  · intro major shift nt t nt' t' hs hlow hlow' heq
    have hinj := rawHash_inj major hs nt.toNat_lt t.toNat_lt nt'.toNat_lt t'.toNat_lt (by cases major <;> exact hlow)
      (by cases major <;> exact hlow') heq
    exact ⟨UInt32.toNat_inj.mp hinj.1, UInt32.toNat_inj.mp hinj.2⟩
  · intro g c shift hc hroom
    have hs : (Problem.of g c.table shift).shift.toNat < 64 := Nat.lt_of_le_of_lt hroom.shift_le (by decide)
    have hno : ∀ o : Orders, o.Permute g → ¬ (Problem.of g c.table shift).Collides o :=
      fun o ho => Problem.not_collides_of_hasRoom hc ho hroom
    refine ⟨fun o ho => Problem.exists_trial_of_hasRoom hc ho hroom, fun σ τ r accept s sink => ⟨?_, ?_, ?_, ?_⟩⟩
    · intro options
      exact endedBySink_runStream hs accept _ _ (fun k => hno _ (permute_shuffledOrders r g options.seed k)) s sink
    · intro options
      exact endedBySink_runRounds hs accept options (fun k => hno _ (permute_trialOrders r g options.seed k)) s sink
    · intro every n orders next stream ho
      exact endedBySink_runStream hs accept every n (fun k => hno _ (ho k)) s sink
    · intro options orders ho
      exact endedBySink_runRounds hs accept options (fun k => hno _ (ho k)) s sink

/-- Three symbols of either kind have room at the shift 2, and the largest positions at the shift 32. -/
theorem hasRoom_never_collides_optionalPair :
    (rawWord .terminal 32 4294967295 4294967295).toNat = 4294967295 * 2 ^ 32 + 4294967295 ∧
    Draft.optionalPair.grammar.HasRoom 2 ∧
    ∀ seed err, (runParallel .standard (Problem.of Draft.optionalPair.grammar Compiled.optionalPair.table 2)
      { seed, workers := 3, maxTrials := some 1000 } Sink.keep {} []).outcome ≠ .error err := by
  obtain ⟨hsum, hexact, -, hsearch⟩ := hasRoom_never_collides
  have hroom : Draft.optionalPair.grammar.HasRoom (2 : UInt32).toNat := ⟨by decide, by decide, by decide⟩
  refine ⟨?_, hroom, ?_⟩
  · rw [(hsum .terminal 32 4294967295 4294967295 (by decide)).2]
    exact hexact .terminal 32 4294967295 4294967295 (by decide)
  · intro seed err herr
    obtain ⟨-, hparallel, -⟩ := (hsearch _ _ 2 Compiled.compile_optionalPair hroom).2 (List Layout) Unit .standard Sink.keep {} []
    obtain ⟨sink, l, hrefused⟩ := hparallel { seed, workers := 3, maxTrials := some 1000 } err herr
    cases hrefused

end Search

end Predictive
