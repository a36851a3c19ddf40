import Mathlib.Algebra.Group.Nat.Defs
import Predictive.Proofs.Grammar.Bnf
import Predictive.Proofs.Grammar.Content
import Predictive.Proofs.Grammar.Reordering
import Predictive.Proofs.Text.Utf8

/-!
# What a digest tells

A digest lays out a grammar by name: its start symbol, the names of its terminals, and for each nonterminal a section
with its name and its alternatives (`Grammar.digest_eq_layOut`). A count stands in front of what it counts, so a text, a
symbol and an alternative can be read off the front of a stream, whatever follows (`ReadsOff`).

Neither the nonterminals nor the alternatives of a nonterminal are counted. Where an alternative may begin, the next
section may begin too, and both begin with a count. It is the brackets that tell them apart: behind the count stands the
byte of `<`, where the first symbol of an alternative begins with its kind, which is 0 or 1 (`alternative_ne_layOut`).
So digests of grammars of BNF rules are equal exactly if the grammars have the same content
(`Grammar.digest_eq_iff_of_rules`).
-/

namespace Predictive

/-! ### Codes at the front of a stream -/

/-- A stream that begins with the code of a value that satisfies `P` tells the value and what follows its code. -/
def ReadsOff {α : Type} (code : α → List UInt8) (P : α → Prop) : Prop :=
  ∀ a b u v, P a → P b → code a ++ u = code b ++ v → a = b ∧ u = v

namespace ReadsOff

variable {α : Type} {code : α → List UInt8} {P : α → Prop}

/-- Values whose number is known can be read off one after the other. -/
private theorem flatMap (h : ReadsOff code P) {l l' : List α} {u v : List UInt8} (hl : ∀ a ∈ l, P a)
    (hl' : ∀ a ∈ l', P a) (hlength : l.length = l'.length) (heq : l.flatMap code ++ u = l'.flatMap code ++ v) :
    l = l' ∧ u = v := by
  induction l generalizing l' with
  | nil =>
    obtain rfl := List.length_eq_zero_iff.mp hlength.symm
    exact ⟨rfl, heq⟩
  | cons a l ih =>
    cases l' with
    | nil => simp at hlength
    | cons a' l' =>
      simp only [List.flatMap_cons, List.append_assoc] at heq
      obtain ⟨rfl, hrest⟩ := h _ _ _ _ (hl a List.mem_cons_self) (hl' a' List.mem_cons_self) heq
      have hsame : l.length = l'.length := by simpa using hlength
      obtain ⟨rfl, huv⟩ := ih (fun b hb => hl b (List.mem_cons_of_mem a hb))
        (fun b hb => hl' b (List.mem_cons_of_mem a hb)) hsame hrest
      exact ⟨rfl, huv⟩

end ReadsOff

namespace Grammar

/-- The bytes of a text can be counted in a word of 32 bits. -/
def Short (s : String) : Prop := (Text.utf8 s).length < 2 ^ 32

instance : DecidablePred Short := fun s => inferInstanceAs (Decidable ((Text.utf8 s).length < 2 ^ 32))

theorem readsOff_countBytes : ReadsOff countBytes (· < 2 ^ 32) := by
  intro n m u v hn hm h
  obtain ⟨hbytes, huv⟩ := List.append_inj h rfl
  simp only [countBytes, List.map_cons, List.map_nil, List.cons.injEq, and_true, ← UInt8.toNat_inj,
    UInt8.toNat_ofNat', Nat.shiftRight_eq_div_pow] at hbytes
  obtain ⟨h0, h1, h2, h3⟩ := hbytes
  exact ⟨by omega, huv⟩

theorem readsOff_textBytes : ReadsOff textBytes Short := by
  intro s t u v hs ht h
  simp only [textBytes, List.append_assoc] at h
  obtain ⟨hlength, hrest⟩ := readsOff_countBytes _ _ _ _ hs ht h
  obtain ⟨hbytes, huv⟩ := List.append_inj hrest hlength
  exact ⟨Text.utf8_inj hbytes, huv⟩

/-- A list behind its length can be read off if its members can. -/
theorem readsOff_counted {α : Type} {code : α → List UInt8} {P : α → Prop} (h : ReadsOff code P) :
    ReadsOff (fun l : List α => countBytes l.length ++ l.flatMap code)
      (fun l => l.length < 2 ^ 32 ∧ ∀ a ∈ l, P a) := by
  rintro l l' u v ⟨hlength, hl⟩ ⟨hlength', hl'⟩ heq
  simp only [List.append_assoc] at heq
  obtain ⟨hsame, hrest⟩ := readsOff_countBytes _ _ _ _ hlength hlength' heq
  exact h.flatMap hl hl' hsame hrest

theorem NamedSymbol.readsOff_bytes : ReadsOff NamedSymbol.bytes (fun x => Short x.name) := by
  intro x y u v hx hy h
  cases x <;> cases y <;> simp only [NamedSymbol.bytes, List.cons_append, List.cons.injEq, true_and] at h
  case terminal.terminal =>
    obtain ⟨rfl, huv⟩ := readsOff_textBytes _ _ _ _ hx hy h
    exact ⟨rfl, huv⟩
  case nonterminal.nonterminal =>
    obtain ⟨rfl, huv⟩ := readsOff_textBytes _ _ _ _ hx hy h
    exact ⟨rfl, huv⟩
  all_goals exact absurd h.1 (by decide)

/-- The symbols of an alternative and the bytes of their names can be counted. -/
def AlternativeFits (rhs : List NamedSymbol) : Prop := rhs.length < 2 ^ 32 ∧ ∀ x ∈ rhs, Short x.name

/-- A section that can be read: its name is in brackets, and every length can be counted. -/
structure Section.Readable (s : Section) : Prop where
  bracketed : ∃ text, s.name = Bnf.bracketed text
  short : Short s.name
  fits : ∀ rhs ∈ s.alternatives, AlternativeFits rhs

/-! ### Where the next section begins -/

private theorem utf8_bracketed (text : String) : ∃ bytes, Text.utf8 (Bnf.bracketed text) = 60 :: bytes := by
  have hopening : Text.utf8 "<" = [60] := by decide
  refine ⟨Text.utf8 text ++ Text.utf8 ">", ?_⟩
  rw [Bnf.bracketed, Text.utf8_append, Text.utf8_append, hopening]
  rfl

private theorem readsOff_alternativeBytes : ReadsOff alternativeBytes AlternativeFits :=
  readsOff_counted NamedSymbol.readsOff_bytes

/-- What begins with an alternative does not begin with a section. -/
private theorem alternative_ne_layOut {rhs : List NamedSymbol} (hrhs : AlternativeFits rhs) (u : List UInt8)
    {sections : List Section} (hs : ∀ s ∈ sections, s.Readable) :
    alternativeBytes rhs ++ u ≠ layOut sections := by
  intro h
  cases sections with
  | nil => simp [alternativeBytes, countBytes, layOut] at h
  | cons s sections =>
    have hread := hs s List.mem_cons_self
    obtain ⟨text, hname⟩ := hread.bracketed
    obtain ⟨bytes, hbytes⟩ := utf8_bracketed text
    rw [← hname] at hbytes
    simp only [alternativeBytes, layOut, List.flatMap_cons, textBytes, List.append_assoc] at h
    obtain ⟨hcount, hrest⟩ := readsOff_countBytes _ _ _ _ hrhs.1 hread.short h
    rw [hbytes] at hrest
    -- The counts agree, so the alternative has symbols, and the first of them begins with its kind.
    cases rhs with
    | nil => simp [hbytes] at hcount
    | cons x rhs =>
      cases x <;> simp [NamedSymbol.bytes] at hrest

/-- The alternatives before the next section can be told apart from it. -/
private theorem readsOff_alternatives {l l' : List (List NamedSymbol)} {sections sections' : List Section}
    (hl : ∀ rhs ∈ l, AlternativeFits rhs) (hl' : ∀ rhs ∈ l', AlternativeFits rhs)
    (hs : ∀ s ∈ sections, s.Readable) (hs' : ∀ s ∈ sections', s.Readable)
    (h : l.flatMap alternativeBytes ++ layOut sections = l'.flatMap alternativeBytes ++ layOut sections') :
    l = l' ∧ layOut sections = layOut sections' := by
  induction l generalizing l' with
  | nil =>
    cases l' with
    | nil => exact ⟨rfl, h⟩
    | cons rhs' l' =>
      simp only [List.flatMap_cons, List.append_assoc, List.flatMap_nil, List.nil_append] at h
      exact absurd h.symm (alternative_ne_layOut (hl' rhs' List.mem_cons_self) _ hs)
  | cons rhs l ih =>
    simp only [List.flatMap_cons, List.append_assoc] at h
    cases l' with
    | nil => exact absurd h (alternative_ne_layOut (hl rhs List.mem_cons_self) _ hs')
    | cons rhs' l' =>
      simp only [List.flatMap_cons, List.append_assoc] at h
      obtain ⟨rfl, hrest⟩ :=
        readsOff_alternativeBytes _ _ _ _ (hl rhs List.mem_cons_self) (hl' rhs' List.mem_cons_self) h
      obtain ⟨rfl, hsections⟩ := ih (fun r hr => hl r (List.mem_cons_of_mem rhs hr))
        (fun r hr => hl' r (List.mem_cons_of_mem rhs hr)) hrest
      exact ⟨rfl, hsections⟩

theorem layOut_inj {sections sections' : List Section} (hs : ∀ s ∈ sections, s.Readable)
    (hs' : ∀ s ∈ sections', s.Readable) (h : layOut sections = layOut sections') : sections = sections' := by
  have hne : ∀ (s : Section) (l : List Section), layOut (s :: l) ≠ [] := by
    simp [layOut, textBytes, countBytes]
  induction sections generalizing sections' with
  | nil =>
    cases sections' with
    | nil => rfl
    | cons s' sections' => exact absurd h.symm (hne s' sections')
  | cons s sections ih =>
    cases sections' with
    | nil => exact absurd h (hne s sections)
    | cons s' sections' =>
      have hread := hs s List.mem_cons_self
      have hread' := hs' s' List.mem_cons_self
      have hlater : ∀ t ∈ sections, t.Readable := fun t ht => hs t (List.mem_cons_of_mem s ht)
      have hlater' : ∀ t ∈ sections', t.Readable := fun t ht => hs' t (List.mem_cons_of_mem s' ht)
      simp only [layOut, List.flatMap_cons, List.append_assoc] at h
      obtain ⟨hname, hrest⟩ := readsOff_textBytes _ _ _ _ hread.short hread'.short h
      obtain ⟨halternatives, hsections⟩ :=
        readsOff_alternatives hread.fits hread'.fits hlater hlater' hrest
      have hsame : s = s' := by
        cases s
        cases s'
        exact congr (congrArg Section.mk hname) halternatives
      rw [hsame, ih hlater hlater' hsections]

/-! ### The digest of a grammar -/

variable {g g' : Grammar}

/-- Every count of a digest, and the bytes of every name, fit a word of 32 bits. -/
structure Sized (g : Grammar) : Prop where
  terminals_lt : g.terminals.length < 2 ^ 32
  terminal_short : ∀ name ∈ g.terminals, Short name
  nonterminal_short : ∀ name ∈ g.nonterminals, Short name
  rhs_lt : ∀ p ∈ g.productions, p.rhs.length < 2 ^ 32

private theorem Sized.sortedTerminals (hs : g.Sized) :
    g.sortedTerminals.length < 2 ^ 32 ∧ ∀ name ∈ g.sortedTerminals, Short name := by
  simp only [Grammar.sortedTerminals, List.length_mergeSort, List.mem_mergeSort]
  exact ⟨hs.terminals_lt, hs.terminal_short⟩

private theorem Sized.named (hs : g.Sized) (hwf : g.WellFormed) {p : Production} (hp : p ∈ g.productions)
    {x : Symbol} (hx : x ∈ p.rhs) : Short (g.named x).name := by
  cases x with
  | terminal t =>
    have hlt : t < g.terminals.length := Nat.lt_of_lt_of_le (hwf.terminal_lt p hp t hx) (Nat.sub_le _ _)
    exact hs.terminal_short _ (getD_mem hlt "")
  | nonterminal n => exact hs.nonterminal_short _ (getD_mem (hwf.nonterminal_lt p hp n hx) "")

theorem Sized.readable (hs : g.Sized) (hwf : g.WellFormed)
    (hbrackets : ∀ name ∈ g.nonterminals, ∃ text, name = Bnf.bracketed text) : ∀ s ∈ g.sections, s.Readable := by
  intro s hmem
  obtain ⟨n, hn, rfl⟩ := mem_sections.mp hmem
  have hname : g.nonterminalName n ∈ g.nonterminals := getD_mem hn ""
  refine ⟨hbrackets _ hname, hs.nonterminal_short _ hname, ?_⟩
  simp only [namedAlternatives, List.mem_map, Prod.exists, mem_productionsOf]
  rintro _ ⟨id, p, ⟨hid, -⟩, rfl⟩
  have hp : p ∈ g.productions := List.mem_of_getElem? hid
  refine ⟨by simpa using hs.rhs_lt p hp, ?_⟩
  simp only [List.mem_map]
  rintro _ ⟨x, hx, rfl⟩
  exact hs.named hwf hp hx

/-- Digests of grammars whose nonterminals are in brackets tell their content. -/
theorem digest_eq_iff (hwf : g.WellFormed) (hwf' : g'.WellFormed)
    (hbrackets : ∀ name ∈ g.nonterminals, ∃ text, name = Bnf.bracketed text)
    (hbrackets' : ∀ name ∈ g'.nonterminals, ∃ text, name = Bnf.bracketed text) (hs : g.Sized) (hs' : g'.Sized) :
    g.digest = g'.digest ↔ g.SameContent g' := by
  refine ⟨fun h => (sameContent_iff hwf hwf').mpr ?_, fun h => h.digest_eq hwf hwf'⟩
  have hstart : Short (g.nonterminalName g.start) := hs.nonterminal_short _ (getD_mem hwf.start_lt "")
  have hstart' : Short (g'.nonterminalName g'.start) := hs'.nonterminal_short _ (getD_mem hwf'.start_lt "")
  rw [digest_eq_layOut, digest_eq_layOut] at h
  obtain ⟨hname, hrest⟩ := readsOff_textBytes _ _ _ _ hstart hstart' h
  obtain ⟨hterminals, hsections⟩ :=
    readsOff_counted readsOff_textBytes _ _ _ _ hs.sortedTerminals hs'.sortedTerminals hrest
  exact ⟨hname, hterminals, layOut_inj (hs.readable hwf hbrackets) (hs'.readable hwf' hbrackets') hsections⟩

/-- The stream of bytes behind a fingerprint is uniquely decodable for grammars of BNF rules, whichever they are: it
tells the start symbol, the names of terminals and nonterminals, and the alternatives of each nonterminal, and nothing
else. -/
theorem digest_eq_iff_of_rules {rules rules' : List Bnf.Rule} {start start' : Option String}
    (hg : (Bnf.toDraft rules start).build = .ok g) (hg' : (Bnf.toDraft rules' start').build = .ok g')
    (hs : g.Sized) (hs' : g'.Sized) : g.digest = g'.digest ↔ g.SameContent g' :=
  digest_eq_iff (Bnf.wellFormed_of_build hg) (Bnf.wellFormed_of_build hg') (Bnf.bracketed_of_build hg)
    (Bnf.bracketed_of_build hg') hs hs'

/-! ### One content in two orders -/

/-- A list of items: `<list> ::= "x" <rest>` and `<rest> ::= "," <list> | ""`. -/
def itemRules : List Bnf.Rule :=
  [⟨"list", [[.literal "x", .name "rest"]]⟩, ⟨"rest", [[.literal ",", .name "list"], [.literal ""]]⟩]

/-- The same rules, the start symbol last. -/
def itemRulesMixed : List Bnf.Rule :=
  [⟨"rest", [[.literal ",", .name "list"], [.literal ""]]⟩, ⟨"list", [[.literal "x", .name "rest"]]⟩]

theorem reorders_itemRules :
    (Bnf.toDraft itemRules none).Reorders (Bnf.toDraft itemRulesMixed (some "<list>")) where
  start := by decide +kernel
  terminals := by
    have hfirst : (Bnf.toDraft itemRules none).terminals = ["x", ","] := by decide +kernel
    have hsecond : (Bnf.toDraft itemRulesMixed (some "<list>")).terminals = [",", "x"] := by decide +kernel
    simp [hfirst, hsecond, or_comm]
  alternatives := by
    intro lhs
    have hfirst : (Bnf.toDraft itemRules none).rules =
        [("<list>", ["x", "<rest>"]), ("<rest>", [",", "<list>"]), ("<rest>", [])] := by decide +kernel
    have hsecond : (Bnf.toDraft itemRulesMixed (some "<list>")).rules =
        [("<rest>", [",", "<list>"]), ("<rest>", []), ("<list>", ["x", "<rest>"])] := by decide +kernel
    simp only [Draft.alternatives, hfirst, hsecond]
    by_cases hlist : "<list>" = lhs
    · subst hlist
      simp
    · by_cases hrest : "<rest>" = lhs <;> simp [hlist, hrest]

theorem digest_eq_iff_of_rules_items :
    ∃ g g', (Bnf.toDraft itemRules none).build = .ok g ∧ (Bnf.toDraft itemRulesMixed (some "<list>")).build = .ok g' ∧
      g.Sized ∧ g'.Sized ∧ g ≠ g' ∧ g.digest = g'.digest ∧ g.SameContent g' := by
  have hg : (Bnf.toDraft itemRules none).build = .ok (Bnf.toDraft itemRules none).grammar := by decide +kernel
  have hg' : (Bnf.toDraft itemRulesMixed (some "<list>")).build =
      .ok (Bnf.toDraft itemRulesMixed (some "<list>")).grammar := by decide +kernel
  have hs : (Bnf.toDraft itemRules none).grammar.Sized := by constructor <;> decide +kernel
  have hs' : (Bnf.toDraft itemRulesMixed (some "<list>")).grammar.Sized := by constructor <;> decide +kernel
  have hdigest := reorders_itemRules.digest_eq (Draft.build_eq_ok.mp hg).1
  exact ⟨_, _, hg, hg', hs, hs', by decide +kernel, hdigest, (digest_eq_iff_of_rules hg hg' hs hs').mp hdigest⟩

end Grammar

end Predictive
