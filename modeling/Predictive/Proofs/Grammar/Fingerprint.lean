import Mathlib.Data.UInt
import Predictive.Layout.Placement
import Predictive.Proofs.Grammar.Content
import Predictive.Proofs.Grammar.Draft
import Predictive.Proofs.OneApart

/-!
# One byte changes a fingerprint

The multiplier of the hash is odd, so it has an inverse modulo `2 ^ 64`, and each step of the hash can be undone if its
byte is known (`Fingerprint.bijective_step`). So the map of states that a stream of bytes makes is a bijection
(`Fingerprint.bijective_foldl_step`). Where two streams differ the states part, and bytes that both have do not bring
them together again (`Fingerprint.foldl_step_ne`).

A digest passes this on to grammars. If one occurrence of a symbol is replaced by another of its kind whose name has the
same length and differs in one byte (`Grammar.Misprints`), then the digests differ in that byte
(`Grammar.Misprints.differOnce_digest`), so the fingerprints differ, and a layout for one grammar is refused for the
other.
-/

namespace Predictive

namespace Fingerprint

/-! ### Steps that can be undone -/

/-- The inverse of the multiplier modulo `2 ^ 64`. -/
def primeInverse : UInt64 := 0xce965057aff6957b

/-- Takes one byte out of the state of the hash. -/
def unstep (state : UInt64) (byte : UInt8) : UInt64 := state * primeInverse ^^^ byte.toUInt64

private theorem prime_mul_primeInverse : prime * primeInverse = 1 := by decide

theorem unstep_step (state : UInt64) (b : UInt8) : unstep (step state b) b = state := by
  rw [unstep, step, UInt64.mul_assoc, prime_mul_primeInverse, UInt64.mul_one, UInt64.xor_assoc, UInt64.xor_self,
    UInt64.xor_zero]

theorem step_unstep (state : UInt64) (b : UInt8) : step (unstep state b) b = state := by
  rw [step, unstep, UInt64.xor_assoc, UInt64.xor_self, UInt64.xor_zero, UInt64.mul_assoc, UInt64.mul_comm primeInverse,
    prime_mul_primeInverse, UInt64.mul_one]

theorem bijective_step (b : UInt8) : Function.Bijective fun state => step state b :=
  Function.bijective_iff_has_inverse.mpr
    ⟨fun state => unstep state b, fun state => unstep_step state b, fun state => step_unstep state b⟩

theorem bijective_foldl_step (bytes : List UInt8) : Function.Bijective fun state => bytes.foldl step state := by
  induction bytes with
  | nil => exact Function.bijective_id
  | cons b bytes ih => exact ih.comp (bijective_step b)

/-- Different bytes lead from one state to different ones. -/
theorem step_ne (state : UInt64) {b b' : UInt8} (h : b ≠ b') : step state b ≠ step state b' := by
  intro heq
  have hxor : state ^^^ b.toUInt64 = state ^^^ b'.toUInt64 := by
    have hundone := congrArg (· * primeInverse) heq
    simpa only [step, UInt64.mul_assoc, prime_mul_primeInverse, UInt64.mul_one] using hundone
  exact h (UInt8.toUInt64_inj.mp ((UInt64.xor_right_inj state).mp hxor))

theorem foldl_step_ne {x y : List UInt8} (h : OneApart (· ≠ ·) x y) (state : UInt64) :
    x.foldl step state ≠ y.foldl step state := by
  obtain ⟨before, b, b', after, rfl, rfl, hne⟩ := h
  simp only [List.foldl_append, List.foldl_cons]
  exact fun heq => step_ne _ hne ((bijective_foldl_step after).injective heq)

theorem ofBytes_ne {x y : List UInt8} (h : OneApart (· ≠ ·) x y) : ofBytes x ≠ ofBytes y := by
  intro heq
  rw [ofBytes, ofBytes, mk.injEq] at heq
  exact foldl_step_ne h basis heq

end Fingerprint

namespace Grammar

/-! ### Misprints -/

/-- Symbols of one kind whose names have the same length in bytes and differ in one byte. -/
def NamedSymbol.Lookalikes : NamedSymbol → NamedSymbol → Prop
  | .terminal name, .terminal name' => DifferOnce (Text.utf8 name) (Text.utf8 name')
  | .nonterminal name, .nonterminal name' => DifferOnce (Text.utf8 name) (Text.utf8 name')
  | _, _ => False

def Lookalikes (g : Grammar) (x x' : Symbol) : Prop := (g.named x).Lookalikes (g.named x')

/-- Two alternatives of one nonterminal that agree but for one symbol. -/
def MisprintsIn (g : Grammar) (p p' : Production) : Prop := p.lhs = p'.lhs ∧ OneApart g.Lookalikes p.rhs p'.rhs

/-- Two grammars that agree but for one occurrence of a symbol, where one has a lookalike of the symbol that the other
has: as the start symbol, or in one right-hand side. -/
structure Misprints (g g' : Grammar) : Prop where
  terminals : g.terminals = g'.terminals
  nonterminals : g.nonterminals = g'.nonterminals
  replaced :
    (g.Lookalikes (.nonterminal g.start) (.nonterminal g'.start) ∧ g.productions = g'.productions) ∨
    (g.start = g'.start ∧ OneApart g.MisprintsIn g.productions g'.productions)

private theorem oneApart_textBytes {s t : String} (h : DifferOnce (Text.utf8 s) (Text.utf8 t)) :
    OneApart (· ≠ ·) (textBytes s) (textBytes t) := by
  rw [textBytes, textBytes, h.1]
  exact (differOnce_iff.mp h).append_left _

private theorem oneApart_bytes (x y : NamedSymbol) (h : x.Lookalikes y) : OneApart (· ≠ ·) x.bytes y.bytes := by
  cases x <;> cases y
  case terminal.terminal => exact (oneApart_textBytes h).append_left [0]
  case nonterminal.nonterminal => exact (oneApart_textBytes h).append_left [1]
  all_goals exact absurd h id

private theorem oneApart_alternativeBytes (rhs rhs' : List NamedSymbol) (h : OneApart NamedSymbol.Lookalikes rhs rhs') :
    OneApart (· ≠ ·) (alternativeBytes rhs) (alternativeBytes rhs') := by
  rw [alternativeBytes, alternativeBytes, h.length_eq]
  exact (h.flatMap oneApart_bytes).append_left _

/-- Sections of one name, where one symbol in one of the alternatives is replaced. -/
def Section.Misprints (s s' : Section) : Prop :=
  s.name = s'.name ∧ OneApart (OneApart NamedSymbol.Lookalikes) s.alternatives s'.alternatives

private theorem oneApart_layOut {sections sections' : List Section} (h : OneApart Section.Misprints sections sections') :
    OneApart (· ≠ ·) (layOut sections) (layOut sections') := by
  refine h.flatMap ?_
  rintro s s' ⟨hname, halternatives⟩
  rw [hname]
  exact (halternatives.flatMap oneApart_alternativeBytes).append_left _

private theorem namedAlternatives_eq (g : Grammar) (n : Nonterminal) :
    g.namedAlternatives n = (g.productions.filter (·.lhs = n)).map fun p => p.rhs.map g.named := by
  rw [namedAlternatives_eq_map, map_productionsOf]

namespace Misprints

variable {g g' : Grammar} (h : g.Misprints g')

include h

private theorem named_eq : g'.named = g.named := by
  funext x
  cases x <;> simp [named, terminalName, nonterminalName, h.terminals, h.nonterminals]

private theorem nonterminalName_eq : g'.nonterminalName = g.nonterminalName := by
  funext n
  rw [nonterminalName, nonterminalName, h.nonterminals]

private theorem sortedNonterminals_eq : g'.sortedNonterminals = g.sortedNonterminals := by
  rw [sortedNonterminals, sortedNonterminals, nonterminalIds, nonterminalIds, h.nonterminalName_eq, h.nonterminals]

/-- One nonterminal has a lookalike in its alternatives, and the others have the same ones. -/
private theorem oneApart_namedAlternatives (hreplaced : OneApart g.MisprintsIn g.productions g'.productions) :
    ∃ p ∈ g.productions, OneApart (OneApart NamedSymbol.Lookalikes) (g.namedAlternatives p.lhs)
      (g'.namedAlternatives p.lhs) ∧ ∀ n, n ≠ p.lhs → g.namedAlternatives n = g'.namedAlternatives n := by
  obtain ⟨before, p, p', after, hp, hp', hlhs, hrhs⟩ := hreplaced
  refine ⟨p, by simp [hp], ?_, ?_⟩
  · have hnames : OneApart NamedSymbol.Lookalikes (p.rhs.map g.named) (p'.rhs.map g.named) :=
      hrhs.map fun _ _ hx => hx
    refine ⟨(before.filter (·.lhs = p.lhs)).map fun q => q.rhs.map g.named, _, _,
      (after.filter (·.lhs = p.lhs)).map fun q => q.rhs.map g.named, ?_, ?_, hnames⟩
    · simp [namedAlternatives_eq, hp]
    · simp [namedAlternatives_eq, hp', h.named_eq, hlhs]
  · intro n hn
    have hn' : p'.lhs ≠ n := hlhs ▸ hn.symm
    simp [namedAlternatives_eq, h.named_eq, hp, hp', hn.symm, hn']

private theorem oneApart_sections (hwf : g.WellFormed)
    (hreplaced : OneApart g.MisprintsIn g.productions g'.productions) :
    OneApart Section.Misprints g.sections g'.sections := by
  obtain ⟨p, hp, hapart, hsame⟩ := h.oneApart_namedAlternatives hreplaced
  have hmem : p.lhs ∈ g.sortedNonterminals := by
    simpa [sortedNonterminals, nonterminalIds] using hwf.lhs_lt p hp
  rw [sections, sections, h.sortedNonterminals_eq, h.nonterminalName_eq]
  refine OneApart.of_map (List.nodup_mergeSort.mpr List.nodup_range) hmem ?_ ⟨rfl, hapart⟩
  intro n hn
  rw [hsame n hn]

private theorem sections_eq_of_productions (hproductions : g.productions = g'.productions) :
    g'.sections = g.sections := by
  rw [sections, sections, h.sortedNonterminals_eq, h.nonterminalName_eq]
  refine List.map_congr_left fun n _ => ?_
  rw [namedAlternatives_eq, namedAlternatives_eq, h.named_eq, hproductions]

/-- The digests of a grammar and its misprint differ in one byte. -/
theorem differOnce_digest (hwf : g.WellFormed) : DifferOnce g.digest g'.digest := by
  have hterminals : g'.sortedTerminals = g.sortedTerminals := by rw [sortedTerminals, sortedTerminals, h.terminals]
  rw [differOnce_iff, digest_eq_layOut, digest_eq_layOut, hterminals, h.nonterminalName_eq]
  rcases h.replaced with ⟨hstart, hproductions⟩ | ⟨hstart, hreplaced⟩
  · rw [h.sections_eq_of_productions hproductions]
    exact (oneApart_textBytes hstart).append_right _
  · rw [← hstart]
    exact ((oneApart_layOut (h.oneApart_sections hwf hreplaced)).append_left _).append_left _

end Misprints

/-! ### Stale layouts -/

/-- Each stream of bytes permutes the states of the hash, so streams that differ in one byte have different hashes. So
grammars whose digests differ in one byte, such as a grammar and its misprint, have different fingerprints, and a layout
for one is refused for the other. -/
theorem one_byte_changes_fingerprint (g g' : Grammar) :
    (∀ bytes : List UInt8, Function.Bijective fun state => bytes.foldl Fingerprint.step state) ∧
    (∀ x y : List UInt8, DifferOnce x y → ∀ state,
      x.foldl Fingerprint.step state ≠ y.foldl Fingerprint.step state) ∧
    (g.WellFormed → g.Misprints g' → DifferOnce g.digest g'.digest) ∧
    (DifferOnce g.digest g'.digest → g.fingerprint ≠ g'.fingerprint ∧ ∀ l : Layout,
      (l.fingerprint = some g.fingerprint →
        l.checkFingerprint g' = .error (.staleLayout g'.fingerprint g.fingerprint)) ∧
      (l.fingerprint = some g'.fingerprint →
        l.checkFingerprint g = .error (.staleLayout g.fingerprint g'.fingerprint))) := by
  refine ⟨Fingerprint.bijective_foldl_step, fun _ _ h => Fingerprint.foldl_step_ne (differOnce_iff.mp h),
    fun hwf h => h.differOnce_digest hwf, fun h => ?_⟩
  have hne : g.fingerprint ≠ g'.fingerprint := Fingerprint.ofBytes_ne (differOnce_iff.mp h)
  refine ⟨hne, fun l => ⟨fun hl => ?_, fun hl => ?_⟩⟩
  · simp [Layout.checkFingerprint, hl, hne]
  · simp [Layout.checkFingerprint, hl, hne.symm]

/-- Words of one letter with an accent. -/
def acuteWords : Draft where
  start := "word"
  terminals := ["é", "è"]
  rules := [("word", ["é", "word"]), ("word", [])]

/-- The same with the other accent, which is another byte. -/
def graveWords : Draft where
  start := "word"
  terminals := ["é", "è"]
  rules := [("word", ["è", "word"]), ("word", [])]

theorem misprints_graveWords : acuteWords.grammar.Misprints graveWords.grammar where
  terminals := by decide +kernel
  nonterminals := by decide +kernel
  replaced := by
    have hnames : DifferOnce (Text.utf8 "é") (Text.utf8 "è") :=
      differOnce_iff.mpr ⟨[0xC3], 0xA9, 0xA8, [], by decide +kernel, by decide +kernel, by decide⟩
    have hletter : acuteWords.grammar.named (.terminal 0) = .terminal "é" := by decide +kernel
    have hletter' : acuteWords.grammar.named (.terminal 1) = .terminal "è" := by decide +kernel
    have hlookalikes : acuteWords.grammar.Lookalikes (.terminal 0) (.terminal 1) := by
      rw [Lookalikes, hletter, hletter']
      exact hnames
    have hrhs : OneApart acuteWords.grammar.Lookalikes [.terminal 0, .nonterminal 0] [.terminal 1, .nonterminal 0] :=
      ⟨[], .terminal 0, .terminal 1, [.nonterminal 0], rfl, rfl, hlookalikes⟩
    exact Or.inr ⟨by decide +kernel, [], ⟨0, [.terminal 0, .nonterminal 0]⟩, ⟨0, [.terminal 1, .nonterminal 0]⟩,
      [⟨0, []⟩], by decide +kernel, by decide +kernel, rfl, hrhs⟩

theorem one_byte_changes_fingerprint_accents :
    acuteWords.grammar.WellFormed ∧ acuteWords.grammar.Misprints graveWords.grammar ∧
    DifferOnce acuteWords.grammar.digest graveWords.grammar.digest ∧
    acuteWords.grammar.digest.foldl Fingerprint.step Fingerprint.basis ≠
      graveWords.grammar.digest.foldl Fingerprint.step Fingerprint.basis ∧
    acuteWords.grammar.fingerprint ≠ graveWords.grammar.fingerprint ∧
    ∃ l : Layout, l.fingerprint = some acuteWords.grammar.fingerprint ∧ l.checkFingerprint graveWords.grammar =
      .error (.staleLayout graveWords.grammar.fingerprint acuteWords.grammar.fingerprint) := by
  have hbuild : acuteWords.build = .ok acuteWords.grammar := by decide +kernel
  have hwf : acuteWords.grammar.WellFormed := (Draft.build_eq_ok.mp hbuild).1.wellFormed
  obtain ⟨-, hstates, hdigest, hfingerprint⟩ := one_byte_changes_fingerprint acuteWords.grammar graveWords.grammar
  have hdiffer := hdigest hwf misprints_graveWords
  obtain ⟨hne, hrefused⟩ := hfingerprint hdiffer
  refine ⟨hwf, misprints_graveWords, hdiffer, hstates _ _ hdiffer _, hne,
    { terminals := ["é", "è", "$"], nonterminals := ["word"], modulus := 3, shift := 6, major := .nonterminal,
      fingerprint := some acuteWords.grammar.fingerprint }, rfl, (hrefused _).1 rfl⟩

end Grammar

end Predictive
