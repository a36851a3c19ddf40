import Predictive.Proofs.Packed.Recognition
import Predictive.Proofs.Search.Run

/-!
# Packed tables of searched layouts

A search looks for few buckets, and buckets do not store their keys. So under a layout that it hands on a pair that is
no key may find the bucket of one, and be answered with its payload. On a word for which the table never asks for such
a pair, the packed table gives the verdict of the table (`PackedTable.searched_recognizes_told`). On others it may
accept what the grammar does not derive, or go on for ever (`PackedTable.misled_nest`).
-/

namespace Predictive

open ParserState

namespace Search.Handed

variable {p : Problem} {l : Layout}

theorem modulus_pos (h : Handed p l) : 1 ≤ l.modulus.toNat := by
  obtain ⟨o, bound, stamps, hit, stamps', -, htrial, rfl⟩ := h.ofTrial
  have hgood := Problem.trial_some htrial
  have hle := hgood.size_le
  rw [hgood.toNat_modulus]
  omega

theorem shift_lt (h : Handed p l) (hkeys : p.table.keys ≠ []) : l.shift.toNat < 64 := by
  obtain ⟨o, bound, stamps, hit, stamps', -, htrial, rfl⟩ := h.ofTrial
  exact Problem.shift_lt_of_trial htrial hkeys

end Search.Handed

/-- What the table rejects is not derived. -/
theorem Compiled.not_generates_of_run {g : Grammar} {c : Compiled} (hg : g.WellFormed) (hc : compile g = .ok c)
    {w : List Terminal} {k : Nat} (h : (initial g.start g.eof w).run (c.table.predictor g) g.eof k = some false) :
    ¬ g.Generates w := by
  intro hw
  have hmark : g.Markless [.nonterminal g.start] := by simp [Grammar.Markless]
  exact run_ne_false hg hc hmark Grammar.followSafe_start hw h

/-! ### A parser that is misled -/

/-- Opening brackets and as many closing ones; there is a terminal that no rule uses. -/
def Draft.nest : Draft where
  start := "nest"
  terminals := ["open", "word", "shut"]
  rules := [("nest", ["open", "rest"]), ("nest", []), ("rest", ["nest", "shut"])]

def Compiled.nest : Compiled where
  grammar := Draft.nest.grammar
  analysis := ⟨⟨[⟨[0], true⟩, ⟨[0, 2], false⟩]⟩, ⟨[[2, 3], [2, 3]]⟩⟩
  table := ⟨[((0, 0), .expand 0), ((0, 2), .vanish), ((0, 3), .vanish), ((1, 0), .expand 2), ((1, 2), .expand 2)]⟩

/-- The first layout that a search finds: there are as many buckets as keys, so every pair hits one of a key. -/
def Layout.nest : Layout where
  terminals := ["open", "word", "shut", "$"]
  nonterminals := ["nest", "rest"]
  modulus := 5
  shift := 6
  major := .nonterminal
  fingerprint := some Draft.nest.grammar.fingerprint

def PackedTable.nest : PackedTable where
  symbols := ⟨["open", "word", "shut", "$"], ["OPEN", "WORD", "SHUT", "EOF"], ["nest", "rest"], ["NEST", "REST"]⟩
  modulus := 5
  shift := 6
  major := .nonterminal
  buckets := #[⟨true, 0, 2⟩, ⟨true, 4, 2⟩, ⟨true, 0, 0⟩, ⟨true, 0, 0⟩, ⟨true, 2, 2⟩]
  pool := [.terminal 0, .nonterminal 1, .nonterminal 0, .terminal 2, .nonterminal 0, .terminal 2]

theorem Draft.build_nest : Draft.nest.build = .ok Draft.nest.grammar := rfl

theorem Draft.wellFormed_nest : Draft.nest.grammar.WellFormed := (Draft.build_eq_ok.mp Draft.build_nest).1.wellFormed

theorem Compiled.compile_nest : Compiled.compile Draft.nest.grammar = .ok Compiled.nest := rfl

theorem Search.mem_run_nest : Layout.nest ∈ (run .standard (Problem.of Draft.nest.grammar Compiled.nest.table 6)
    { maxTrials := some 1 } Sink.keep.logged {} ([], [])).sink.2 := by
  -- `decide` does not evaluate the fingerprint, so that is compared on its own
  have hrun : (run .standard (Problem.of Draft.nest.grammar Compiled.nest.table 6) { maxTrials := some 1 } Sink.keep.logged {}
      ([], [])).sink.2.map (fun l => { l with fingerprint := none }) = [{ Layout.nest with fingerprint := none }] := by
    decide +kernel
  obtain ⟨l, hl, hfields⟩ := List.mem_map.mp (hrun ▸ List.mem_singleton_self _)
  obtain ⟨o, _, _, hit, _, -, -, hlayout⟩ := (handed_of_run hl).ofTrial
  have hfingerprint : l.fingerprint = Layout.nest.fingerprint := by
    rw [hlayout]
    rfl
  obtain rfl : l = Layout.nest := by
    obtain ⟨terminals, nonterminals, modulus, shift, major, fingerprint⟩ := l
    simp only [Layout.nest, Layout.mk.injEq] at hfields hfingerprint ⊢
    exact ⟨hfields.1, hfields.2.1, hfields.2.2.1, hfields.2.2.2.1, hfields.2.2.2.2.1, hfingerprint⟩
  exact hl

theorem PackedTable.pack_nest :
    PackedTable.pack Draft.nest.grammar Compiled.nest.table Layout.nest = .ok PackedTable.nest := by
  refine (pack_eq_ok Draft.wellFormed_nest (by decide) (by decide)).mpr
    ⟨?_, ⟨by decide, by decide⟩, by decide +kernel, PackedTable.nest.symbols, by decide +kernel, by decide +kernel⟩
  simp [Layout.checkFingerprint, Layout.nest]

private theorem eq_of_name_nest {x : Terminal} (hx : x < 4) {w : List Terminal}
    (h : [Draft.nest.grammar.terminalName x] = w.map Draft.nest.grammar.terminalName) : w = [x] := by
  obtain ⟨y, rfl, hy⟩ := List.map_eq_singleton_iff.mp h.symm
  have hinj : ∀ x < 4, Draft.nest.grammar.terminalName x ≠ "" ∧ ∀ y < 4,
      Draft.nest.grammar.terminalName y = Draft.nest.grammar.terminalName x → y = x := by decide +kernel
  have hlt : y < 4 := by
    refine Nat.lt_of_not_le fun hle => ?_
    have hlength : Draft.nest.grammar.terminals.length ≤ y := hle
    have hempty : Draft.nest.grammar.terminalName y = "" := List.getD_eq_default _ _ hlength
    exact (hinj x hx).1 (hy.symm.trans hempty)
  rw [(hinj x hx).2 y hlt hy]

/-- A nonterminal that is replaced by a payload that begins with itself stays on top for good. -/
private theorem ParserState.run_eq_none {predict : Predictor} {eof look : Terminal} {n : Nonterminal}
    {symbols : List Symbol} (h : predict n look = some (.nonterminal n :: symbols)) (rest : List Terminal) (k : Nat)
    (stack : List Symbol) : run predict eof k ⟨.nonterminal n :: stack, look :: rest⟩ = none := by
  induction k generalizing stack with
  | zero => rfl
  | succ k ih =>
    rw [run_succ, step_nonterminal, h]
    exact ih (symbols ++ stack)

/-- Under the layout that a search hands on, the terminal that no rule uses finds the payload of another key. So the
packed table goes on for ever there, and it accepts an opening bracket alone, which is not derived. -/
theorem PackedTable.misled_nest : Draft.nest.build = .ok Draft.nest.grammar ∧
    Compiled.compile Draft.nest.grammar = .ok Compiled.nest ∧
    Layout.nest ∈ (Search.run .standard (Problem.of Draft.nest.grammar Compiled.nest.table 6) { maxTrials := some 1 }
      Sink.keep.logged {} ([], [])).sink.2 ∧
    PackedTable.pack Draft.nest.grammar Compiled.nest.table Layout.nest = .ok PackedTable.nest ∧
    Compiled.nest.table.get? 0 1 = none ∧ PackedTable.nest.lookup 0 1 = some [.nonterminal 0, .terminal 2] ∧
    PackedTable.nest.Accepts "nest" ["open"] ∧
    (¬ ∃ w, Draft.nest.grammar.Generates w ∧ ["open"] = w.map Draft.nest.grammar.terminalName) ∧
    ¬ PackedTable.nest.Halts "nest" ["word"] := by
  refine ⟨Draft.build_nest, Compiled.compile_nest, Search.mem_run_nest, PackedTable.pack_nest, by decide +kernel,
    by decide +kernel, ?_, ?_, ?_⟩
  · exact ⟨initial 0 3 [0], by decide +kernel, 6, by decide +kernel⟩
  · rintro ⟨w, hw, hword⟩
    obtain rfl := eq_of_name_nest (x := 0) (by decide) hword
    exact Compiled.not_generates_of_run (k := 3) Draft.wellFormed_nest Compiled.compile_nest (by decide +kernel) hw
  · intro hhalts
    obtain ⟨k, b, hk⟩ := hhalts (initial 0 3 [1]) (by decide +kernel)
    have hloop : PackedTable.nest.lookup 0 1 = some [.nonterminal 0, .terminal 2] := by decide +kernel
    have hnone : (initial 0 3 [1]).run PackedTable.nest.lookup PackedTable.nest.eof k = none :=
      ParserState.run_eq_none hloop [3] k [.terminal 3]
    rw [hnone] at hk
    cases hk

/-! ### A parser that is not misled -/

/-- The parser of a table asks on a word only for pairs that a layout tells from the keys. -/
def Layout.TellsAlong (l : Layout) (g : Grammar) (table : Table) (w : List Terminal) : Prop :=
  ∀ k, (initial g.start g.eof w).AsksOnly (l.Tells (.ofNames g l) table) (table.predictor g) g.eof k

namespace PackedTable

variable {g : Grammar} {c : Compiled} {l : Layout} {t : PackedTable}

/-- The packed table of a layout that a search hands on halts on every word for which the table asks only for keys and
for pairs whose bucket no key has, and accepts such a word exactly if the start symbol derives it. -/
theorem searched_recognizes_told {d : Draft} (hb : d.build = .ok g) (hc : Compiled.compile g = .ok c) {shift : UInt32}
    (hl : Search.Handed (Problem.of g c.table shift) l) (hp : pack g c.table l = .ok t) (word : List String)
    (htold : ∀ w : List Terminal, (∀ x ∈ w, x < g.terminals.length) → word = w.map g.terminalName →
      l.TellsAlong g c.table w) :
    t.Halts (g.nonterminalName g.start) word ∧ (t.Accepts (g.nonterminalName g.start) word ↔
      ∃ w, g.Generates w ∧ word = w.map g.terminalName) := by
  obtain ⟨hlegal, rfl⟩ := Draft.build_eq_ok.mp hb
  have hg := hlegal.wellFormed
  have hkeys : c.table.keys ≠ [] := by
    obtain ⟨x, symbols, hpred⟩ := Compiled.exists_predictor_start hg hc
    exact List.ne_nil_of_mem ((mem_keys_iff hc).mpr (Option.isSome_of_eq_some hpred))
  have hm := Layout.modulus_ne_zero hl.modulus_pos
  have hs := hl.shift_lt hkeys
  refine recognizes_word hg hc hm hs hp ?_
  intro w hw hword k
  exact follows_of_simulates hg hm hs hp (simulates_told hg hc hm hs hp) hw (htold w hw hword k)

end PackedTable

/-- A closing bracket alone is told from what is derived, so it is rejected. -/
theorem PackedTable.searched_rejects_shut :
    PackedTable.nest.Halts "nest" ["shut"] ∧ ¬ PackedTable.nest.Accepts "nest" ["shut"] := by
  have htold : Layout.nest.TellsAlong Draft.nest.grammar Compiled.nest.table [2] := by
    have hfirst : (initial 0 3 [2]).step (Compiled.nest.table.predictor Draft.nest.grammar) 3 =
        .more ⟨[.terminal 3], [2, 3]⟩ := by decide +kernel
    have hkey : ∀ pair, (initial 0 3 [2]).asksFor = some pair →
        Layout.nest.Tells (.ofNames Draft.nest.grammar Layout.nest) Compiled.nest.table pair := by
      intro pair hpair
      obtain rfl := Option.some.inj hpair
      decide +kernel
    -- the start symbol is dropped, and then the end marker does not match
    intro k
    rcases k with _ | _ | k
    · trivial
    · exact ⟨hkey, fun _ _ => trivial⟩
    · refine ⟨hkey, fun next hnext => ?_⟩
      obtain rfl := ParserStep.more.inj (hfirst.symm.trans hnext)
      exact ⟨by simp [asksFor], by simp [step]⟩
  obtain ⟨hhalts, haccepts⟩ := PackedTable.searched_recognizes_told Draft.build_nest Compiled.compile_nest
    (Search.handed_of_run Search.mem_run_nest) PackedTable.pack_nest ["shut"]
    fun w _ hword => eq_of_name_nest (x := 2) (by decide) hword ▸ htold
  refine ⟨hhalts, fun h => ?_⟩
  obtain ⟨w, hw, hword⟩ := haccepts.mp h
  obtain rfl := eq_of_name_nest (x := 2) (by decide) hword
  exact Compiled.not_generates_of_run (k := 2) Draft.wellFormed_nest Compiled.compile_nest (by decide +kernel) hw

end Predictive
