import Predictive.Program.Emit
import Predictive.Proofs.Packed.CUnit

/-!
# What the lines of a table declare

The lines of a header and of a source are read part by part. Parts that do not depend on the table declare the same in
every unit, and the others declare one thing each: an enumeration its constants, a macro its number, the pool and the
buckets their elements, and the index function its expression (`Declares`).
-/

namespace Predictive.CText

open Mode (spelled)

-- given lines are read by computation, which goes as deep as they are long
set_option maxRecDepth 16000

/-! ### Lines -/

/-- The characters of lines. -/
def chars (lines : List String) : List Char := lines.flatMap fun line => line.toList ++ ['\n']

theorem chars_append (xs ys : List String) : chars (xs ++ ys) = chars xs ++ chars ys := List.flatMap_append

theorem chars_nil : chars [] = [] := rfl

/-- The characters of a line that is given. They are not computed, so that a check does not decode the line. -/
theorem chars_cons {cs rest : List Char} {lines : List String} (h : chars lines = rest) :
    chars (String.ofList cs :: lines) = cs ++ '\n' :: rest := by
  rw [chars, List.flatMap_cons, String.toList_ofList, List.append_assoc]
  exact congrArg (cs ++ '\n' :: ·) h

private theorem chars_map {α : Type} (f : α → String) (xs : List α) :
    chars (xs.map f) = xs.flatMap fun x => (f x).toList ++ ['\n'] := by
  rw [chars, List.flatMap_map]

private theorem chars_flatMap {α : Type} (f : α → List String) (xs : List α) :
    chars (xs.flatMap f) = xs.flatMap fun x => chars (f x) := by
  rw [chars, List.flatMap_assoc]
  rfl

theorem toList_ofLines (lines : List String) : (ofLines lines).toList = chars lines := by
  rw [ofLines]
  induction lines with
  | nil => rfl
  | cons line lines ih =>
    rw [List.map_cons, String.join_cons, String.toList_append, ih, String.toList_append]
    rfl

/-- A line with a name in it. -/
private theorem lexes_line {before name after : String} (h : isIdentifier name = true) {m : Mode} {ts ts' : List Token}
    (hbefore : scan .lineStart before.toList = some (ts, m)) (hm : m = .plain ∨ m = .lineStart)
    (hafter : ∀ read, scan (.word read) (after.toList ++ ['\n']) = some (.word (spelled read) :: ts', .lineStart)) :
    Lexes ((before ++ name ++ after).toList ++ ['\n']) (ts ++ Token.word name :: ts') := by
  rw [Lexes, String.toList_append, String.toList_append, List.append_assoc, List.append_assoc]
  exact scan_name_between h hbefore hm hafter

/-! ### Declarations -/

theorem cut_append_of {s s' s'' : Cut} {xs ys : List Token} {ds ds' : List Declaration} (hx : cut s xs = some (ds, s'))
    (hy : cut s' ys = some (ds', s'')) : cut s (xs ++ ys) = some (ds ++ ds', s'') := by
  induction xs generalizing s ds with
  | nil =>
    obtain ⟨rfl, rfl⟩ : [] = ds ∧ s = s' := by simpa [cut] using hx
    exact hy
  | cons t xs ih =>
    simp only [cut, Option.bind_eq_bind, Option.bind_eq_some_iff, Prod.exists, Option.pure_def, Option.some.injEq,
      Prod.mk.injEq] at hx
    obtain ⟨first, next, hstep, rest, last, hrest, rfl, rfl⟩ := hx
    simp only [List.cons_append, cut, hstep, ih hrest, Option.bind_eq_bind, Option.bind_some, Option.pure_def,
      List.append_assoc]

/-- Tokens that only go on with a declaration, wherever they stand in its brackets. -/
def GoesOn (ts : List Token) : Prop :=
  ∀ o os b read, cut ⟨o :: os, b, read⟩ ts = some ([], ⟨o :: os, b, ts.reverse ++ read⟩)

private theorem GoesOn.flatMap {α : Type} {ts : α → List Token} (xs : List α) (h : ∀ x, GoesOn (ts x)) :
    GoesOn (xs.flatMap ts) := by
  intro o os b read
  induction xs generalizing read with
  | nil => rfl
  | cons x xs ih =>
    rw [List.flatMap_cons, cut_append_of (h x o os b read) (ih _), List.reverse_append, List.append_assoc]
    rfl

/-- One declaration from its first part, which opens brackets, through what stands in them to its last part. -/
private theorem cut_enclosed (o : String) (os : List String) (b : Bool) {first inside last : List Token}
    (hfirst : cut {} first = some ([], ⟨o :: os, b, first.reverse⟩)) (hinside : GoesOn inside)
    (hlast : ∀ read, cut ⟨o :: os, b, read⟩ last = some ([(last.reverse ++ read).reverse], {})) :
    cut {} (first ++ (inside ++ last)) = some ([first ++ (inside ++ last)], {}) := by
  rw [cut_append_of hfirst (cut_append_of (hinside o os b _) (hlast _))]
  simp

/-- All parts in order. -/
def Found.append (f f' : Found) : Found where
  nonterminals := f.nonterminals ++ f'.nonterminals
  terminals := f.terminals ++ f'.terminals
  structures := f.structures ++ f'.structures
  bucketCounts := f.bucketCounts ++ f'.bucketCounts
  slotCounts := f.slotCounts ++ f'.slotCounts
  pools := f.pools ++ f'.pools
  buckets := f.buckets ++ f'.buckets
  indices := f.indices ++ f'.indices
  setUps := f.setUps ++ f'.setUps

theorem found_append (ds ds' : List Declaration) : found (ds ++ ds') = (found ds).append (found ds') := by
  simp only [found, Found.append, List.filterMap_append]

/-- The parts that one declaration is. -/
theorem found_singleton (d : Declaration) : found [d] = {
    nonterminals := (enumeration? "nterm_type_t" d).toList
    terminals := (enumeration? "term_type_t" d).toList
    structures := (structure? d).toList
    bucketCounts := (macro? "PARSER_TABLE_BUCKETS" d).toList
    slotCounts := (macro? "PARSER_POOL_SLOTS" d).toList
    pools := (pool? d).toList
    buckets := (buckets? d).toList
    indices := (index? d).toList
    setUps := (setUp? d).toList } := by
  have hone : ∀ {α : Type} (f : Declaration → Option α), [d].filterMap f = (f d).toList := by
    intro α f
    rw [List.filterMap_cons, List.filterMap_nil]
    cases f d <;> rfl
  simp only [found, hone]

/-- Lines are read on their own and say this about a table. -/
def Declares (lines : List String) (f : Found) : Prop :=
  ∃ ts ds, Lexes (chars lines) ts ∧ cut {} ts = some (ds, {}) ∧ found ds = f

theorem Declares.append {xs ys : List String} {f f' : Found} (h : Declares xs f) (h' : Declares ys f') :
    Declares (xs ++ ys) (f.append f') := by
  obtain ⟨ts, ds, hlexes, hcut, rfl⟩ := h
  obtain ⟨ts', ds', hlexes', hcut', rfl⟩ := h'
  refine ⟨ts ++ ts', ds ++ ds', ?_, cut_append_of hcut hcut', found_append ds ds'⟩
  rw [chars_append]
  exact hlexes.append hlexes'

theorem Declares.declarations {lines : List String} {f : Found} (h : Declares lines f) :
    ∃ ds, declarations? (ofLines lines) = some ds ∧ found ds = f := by
  obtain ⟨ts, ds, hlexes, hcut, hfound⟩ := h
  refine ⟨ds, ?_, hfound⟩
  rw [← toList_ofLines] at hlexes
  simp [declarations?, tokens?_eq_some.mpr hlexes, hcut]

/-- What given characters say can be computed. -/
def declared? (cs : List Char) : Option Found := do
  let (ds, s) ← cut {} (← tokens? cs)
  if s = {} then some (found ds) else none

theorem Declares.of_declared {lines : List String} {cs : List Char} (hchars : chars lines = cs) {f : Found}
    (h : declared? cs = some f) : Declares lines f := by
  simp only [declared?, Option.bind_eq_bind, Option.bind_eq_some_iff, Prod.exists, Option.ite_none_right_eq_some,
    Option.some.injEq] at h
  obtain ⟨ts, htokens, ds, s, hcut, rfl, hfound⟩ := h
  exact ⟨ts, ds, hchars ▸ tokens?_eq_some.mp htokens, hcut, hfound⟩

example : declared? "#define PARSER_POOL_SLOTS 3\n".toList = some { slotCounts := [3] } := by decide +kernel

private theorem lexes_of_chars {lines : List String} {cs : List Char} (hchars : chars lines = cs) {ts : List Token}
    (h : Lexes cs ts) : Lexes (chars lines) ts := hchars ▸ h

/-! ### Enumerations -/

private def enumerationStart : List Token := [.word "typedef", .word "enum", .mark "\x7b"]

private def constantTokens (constant : String) : List Token := [.word constant, .mark ","]

private def enumerationEnd (type : String) : List Token := [.mark "\x7d", .word type, .mark ";"]

private theorem lexes_enumeration {constants : List String} (h : ∀ c ∈ constants, isIdentifier c = true)
    {type : String} (htype : isIdentifier type = true) : Lexes (chars (enumeration constants type))
      (enumerationStart ++ (constants.flatMap constantTokens ++ enumerationEnd type)) := by
  have hfirst : Lexes (chars ["typedef enum", "\x7b"]) enumerationStart := rfl
  have hconstant : ∀ c ∈ constants, Lexes (("    " ++ c ++ ",").toList ++ ['\n']) (constantTokens c) := by
    intro c hc
    have hbefore : scan .lineStart "    ".toList = some ([], .lineStart) := rfl
    exact lexes_line (h c hc) hbefore (.inr rfl) fun _ => rfl
  have hlast : Lexes (chars ["\x7d " ++ type ++ ";", ""]) (enumerationEnd type) := by
    have hbefore : scan .lineStart "\x7d ".toList = some ([.mark "\x7d"], .plain) := rfl
    have hafter : ∀ read, scan (.word read) (";".toList ++ ['\n']) =
        some ([.word (spelled read), .mark ";"], .lineStart) := fun _ => rfl
    have hblank : Lexes ['\n'] [] := rfl
    exact (lexes_line htype hbefore (.inl rfl) hafter).append hblank
  rw [enumeration, chars_append, chars_append, chars_map, List.append_assoc]
  exact hfirst.append ((Lexes.flatMap constants hconstant).append hlast)

private theorem cut_enumeration (constants : List String) (type : String) :
    cut {} (enumerationStart ++ (constants.flatMap constantTokens ++ enumerationEnd type)) =
      some ([enumerationStart ++ (constants.flatMap constantTokens ++ enumerationEnd type)], {}) :=
  cut_enclosed "\x7d" [] false rfl (GoesOn.flatMap constants fun _ _ _ _ _ => rfl) fun _ => rfl

private theorem constants?_tokens (constants : List String) (type : String) :
    constants? (constants.flatMap constantTokens ++ enumerationEnd type) = some (constants, type) := by
  induction constants with
  | nil => rfl
  | cons c constants ih =>
    rw [List.flatMap_cons, List.append_assoc]
    simp [constantTokens, constants?] at ih ⊢
    simp [ih]

private theorem enumeration?_tokens (wanted : String) (constants : List String) (type : String) :
    enumeration? wanted (enumerationStart ++ (constants.flatMap constantTokens ++ enumerationEnd type)) =
      if type = wanted then some constants else none := by
  have hread : enumeration? wanted (enumerationStart ++ (constants.flatMap constantTokens ++ enumerationEnd type)) =
      (constants? (constants.flatMap constantTokens ++ enumerationEnd type)).bind fun found =>
        if found.2 = wanted then some found.1 else none := rfl
  rw [hread, constants?_tokens, Option.bind_some]

theorem declares_nonterminals {constants : List String} (h : ∀ c ∈ constants, isIdentifier c = true) :
    Declares (enumeration constants "nterm_type_t") { nonterminals := [constants] } := by
  refine ⟨_, _, lexes_enumeration h (by decide), cut_enumeration constants "nterm_type_t", ?_⟩
  rw [found_singleton, enumeration?_tokens, enumeration?_tokens]
  rfl

theorem declares_terminals {constants : List String} (h : ∀ c ∈ constants, isIdentifier c = true) :
    Declares (enumeration constants "term_type_t") { terminals := [constants] } := by
  refine ⟨_, _, lexes_enumeration h (by decide), cut_enumeration constants "term_type_t", ?_⟩
  rw [found_singleton, enumeration?_tokens, enumeration?_tokens]
  rfl

/-! ### Directives -/

private theorem digits_toString (n : Nat) : ∀ c ∈ (toString n).toList, c.isDigit = true := by
  intro c hc
  rw [Nat.toString_eq_ofList_toDigits, String.toList_ofList] at hc
  exact Nat.isDigit_of_mem_toDigits (by omega) (by omega) hc

private theorem exists_concat_toString (n : Nat) : ∃ front c, (toString n).toList = front ++ [c] ∧ c.isDigit = true := by
  rcases List.eq_nil_or_concat (toString n).toList with hnil | ⟨front, c, hconcat⟩
  · have hscan := scan_number n
    rw [hnil] at hscan
    simp [scan] at hscan
  · rw [List.concat_eq_append] at hconcat
    refine ⟨front, c, hconcat, digits_toString n c ?_⟩
    rw [hconcat]
    exact List.mem_append_right front List.mem_cons_self

/-- A directive and a blank line behind it. -/
private theorem lexes_directiveLine {line : String} (h : '\n' ∉ line.toList) (hend : line.toList.getLast? ≠ some '\\') :
    Lexes (chars ["#" ++ line, ""]) [.directive line] := by
  have hblank : Lexes ['\n'] [] := rfl
  have hlexes := (lexes_directive h hend).append hblank
  rw [String.ofList_toList] at hlexes
  simpa [chars] using hlexes

/-- A macro that stands for a number. -/
private theorem lexes_macro {before : String} (h : '\n' ∉ before.toList) (n : Nat) :
    Lexes (chars ["#" ++ before ++ toString n, ""]) [.directive (before ++ toString n)] := by
  obtain ⟨front, c, hconcat, hc⟩ := exists_concat_toString n
  have hline : '\n' ∉ (before ++ toString n).toList := by
    rw [String.toList_append, List.mem_append, not_or]
    exact ⟨h, fun hmem => absurd (digits_toString n _ hmem) (by decide)⟩
  have hend : (before ++ toString n).toList.getLast? ≠ some '\\' := by
    rw [String.toList_append, hconcat, ← List.append_assoc, List.getLast?_concat]
    intro heq
    rw [Option.some.inj heq] at hc
    exact absurd hc (by decide)
  rw [String.append_assoc]
  exact lexes_directiveLine hline hend

private theorem macro?_directive {before name : String}
    (h : scan .plain before.toList = some ([.word "define", .word name], .plain)) (n : Nat) (wanted : String) :
    macro? wanted [.directive (before ++ toString n)] = if name = wanted then some n else none := by
  have hafter : scan (.number n) ['\n'] = some ([.number n], .lineStart) := rfl
  have hscan := scan_number_between n h hafter
  rw [macro?, String.toList_append, List.append_assoc, hscan]
  rfl

private theorem found_directive {line : String} {bucketCount slotCount : Option Nat}
    (hb : macro? "PARSER_TABLE_BUCKETS" [.directive line] = bucketCount)
    (hs : macro? "PARSER_POOL_SLOTS" [.directive line] = slotCount) :
    found [[.directive line]] = { bucketCounts := bucketCount.toList, slotCounts := slotCount.toList } := by
  rw [found_singleton, hb, hs]
  rfl

/-- A macro counts the buckets or the slots, by its name. -/
private theorem declares_macro {before name : String} (h : '\n' ∉ before.toList)
    (hname : scan .plain before.toList = some ([.word "define", .word name], .plain)) (n : Nat) :
    Declares ["#" ++ before ++ toString n, ""] {
      bucketCounts := (if name = "PARSER_TABLE_BUCKETS" then some n else none).toList
      slotCounts := (if name = "PARSER_POOL_SLOTS" then some n else none).toList } :=
  ⟨_, _, lexes_macro h n, rfl,
    found_directive (macro?_directive hname n "PARSER_TABLE_BUCKETS") (macro?_directive hname n "PARSER_POOL_SLOTS")⟩

private theorem declares_bucketCount (n : Nat) :
    Declares ["#define PARSER_TABLE_BUCKETS " ++ toString n, ""] { bucketCounts := [n] } := by
  have hline : '\n' ∉ "define PARSER_TABLE_BUCKETS ".toList := by decide
  exact declares_macro hline rfl n

private theorem declares_slotCount (n : Nat) :
    Declares ["#define PARSER_POOL_SLOTS " ++ toString n, ""] { slotCounts := [n] } := by
  have hline : '\n' ∉ "define PARSER_POOL_SLOTS ".toList := by decide
  exact declares_macro hline rfl n

/-- The name of the header says nothing about the table, whatever it is. -/
private theorem declares_include (header : String) : Declares ["#include " ++ literal header, ""] {} := by
  have hline : '\n' ∉ ("include " ++ literal header).toList := by
    rw [String.toList_append, List.mem_append, not_or]
    exact ⟨by decide, not_mem_literal header⟩
  have hend : ("include " ++ literal header).toList.getLast? ≠ some '\\' := by
    rw [String.toList_append, toList_literal, ← List.cons_append, ← List.append_assoc, List.getLast?_concat]
    decide
  have hlexes := lexes_directiveLine hline hend
  rw [← String.append_assoc] at hlexes
  have hbefore : scan .plain "include ".toList = some ([.word "include"], .plain) := rfl
  have hafter : scan .plain ['\n'] = some ([], .lineStart) := rfl
  have hscan := scan_append_of hbefore (scan_append_of (scan_literal header) hafter)
  have hnone : ∀ name, macro? name [.directive ("include " ++ literal header)] = none := by
    intro name
    rw [macro?, String.toList_append, List.append_assoc, hscan]
    rfl
  exact ⟨_, _, hlexes, rfl, found_directive (hnone _) (hnone _)⟩

/-! ### The pool -/

private def arrayEnd : List Token := [.mark "\x7d", .mark ";"]

/-- The constant of a symbol that is given by its position. -/
def namedSlot (names : SymbolNames) : Slot → NamedSlot
  | .nonterminal i => .nonterminal (nonterminalConstant (names.nonterminalNames.getD i ""))
  | .terminal i => .terminal (terminalConstant (names.terminalNames.getD i ""))

private def slotTokens : NamedSlot → List Token
  | .nonterminal constant => [.mark "\x7b", .mark ".", .word "is_nterm", .mark "=", .word "true", .mark ",", .mark ".",
      .word "nterm", .mark "=", .word constant, .mark "\x7d", .mark ","]
  | .terminal constant => [.mark "\x7b", .mark ".", .word "is_nterm", .mark "=", .word "false", .mark ",", .mark ".",
      .word "term", .mark "=", .word constant, .mark "\x7d", .mark ","]

/-- The names of the symbols can stand in constants. -/
structure Constants (names : SymbolNames) : Prop where
  nonterminal : ∀ i, isIdentifier (nonterminalConstant (names.nonterminalNames.getD i "")) = true
  terminal : ∀ i, isIdentifier (terminalConstant (names.terminalNames.getD i "")) = true

private theorem lexes_slotLine {names : SymbolNames} (h : Constants names) (slot : Slot) :
    Lexes ((slotLine names slot).toList ++ ['\n']) (slotTokens (namedSlot names slot)) := by
  have hafter : ∀ read, scan (.word read) (" \x7d,".toList ++ ['\n']) =
      some ([.word (spelled read), .mark "\x7d", .mark ","], .lineStart) := fun _ => rfl
  cases slot with
  | nonterminal i =>
    have hbefore : scan .lineStart "    \x7b .is_nterm = true, .nterm = ".toList = some ([.mark "\x7b", .mark ".",
        .word "is_nterm", .mark "=", .word "true", .mark ",", .mark ".", .word "nterm", .mark "="], .plain) := by
      rfl
    exact lexes_line (h.nonterminal i) hbefore (.inl rfl) hafter
  | terminal i =>
    have hbefore : scan .lineStart "    \x7b .is_nterm = false, .term = ".toList = some ([.mark "\x7b", .mark ".",
        .word "is_nterm", .mark "=", .word "false", .mark ",", .mark ".", .word "term", .mark "="], .plain) := by
      rfl
    exact lexes_line (h.terminal i) hbefore (.inl rfl) hafter

private def poolStart : List Token := [.word "static", .word "const", .word "nut_type_t", .word "pool_init", .mark "[",
  .word "PARSER_POOL_SLOTS", .mark "]", .mark "=", .mark "\x7b"]

private theorem poolElements?_tokens (slots : List NamedSlot) :
    poolElements? (slots.flatMap slotTokens ++ arrayEnd) = some slots := by
  induction slots with
  | nil => rfl
  | cons slot slots ih =>
    rw [List.flatMap_cons, List.append_assoc]
    cases slot <;> simp [slotTokens, poolElements?, ih]

private theorem declares_pool {names : SymbolNames} (h : Constants names) (pool : List Slot) :
    Declares (["static const nut_type_t pool_init[PARSER_POOL_SLOTS] = \x7b"] ++ pool.map (slotLine names) ++ ["\x7d;", ""])
      { pools := [("PARSER_POOL_SLOTS", pool.map (namedSlot names))] } := by
  have hfirst : Lexes (chars ["static const nut_type_t pool_init[PARSER_POOL_SLOTS] = \x7b"]) poolStart := by
    apply lexes_of_chars
    · repeat apply chars_cons
      exact chars_nil
    · rfl
  have hlast : Lexes (chars ["\x7d;", ""]) arrayEnd := rfl
  have hslots : Lexes (chars (pool.map (slotLine names))) ((pool.map (namedSlot names)).flatMap slotTokens) := by
    rw [chars_map, List.flatMap_map]
    exact Lexes.flatMap pool fun slot _ => lexes_slotLine h slot
  refine ⟨poolStart ++ ((pool.map (namedSlot names)).flatMap slotTokens ++ arrayEnd), _, ?_,
    cut_enclosed "\x7d" [] false rfl (GoesOn.flatMap _ ?_) fun _ => rfl, ?_⟩
  · rw [chars_append, chars_append, List.append_assoc]
    exact hfirst.append (hslots.append hlast)
  · intro slot o os b read
    cases slot <;> rfl
  · have hread : pool? (poolStart ++ ((pool.map (namedSlot names)).flatMap slotTokens ++ arrayEnd)) =
        (poolElements? ((pool.map (namedSlot names)).flatMap slotTokens ++ arrayEnd)).bind fun slots =>
          some ("PARSER_POOL_SLOTS", slots) := rfl
    rw [found_singleton, hread, poolElements?_tokens, Option.bind_some]
    rfl

/-! ### The buckets -/

private def elementTokens (element : Nat × Bucket) : List Token :=
  [.mark "[", .number element.1, .mark "]", .mark "=", .mark "\x7b", .word "true", .mark ",",
    .number element.2.offset, .mark ",", .number element.2.length, .mark "\x7d", .mark ","]

private theorem lexes_bucketLine (b : Bucket) (index : Nat) :
    Lexes ((bucketLine b index).toList ++ ['\n']) (elementTokens (index, b)) := by
  have hbefore : scan .lineStart "    [".toList = some ([], .mark ['[']) := rfl
  have hindex : scan (.number index) "] = \x7b true, ".toList =
      some ([.number index, .mark "]", .mark "=", .mark "\x7b", .word "true", .mark ","], .plain) := rfl
  have hoffset : scan (.number b.offset) ", ".toList = some ([.number b.offset, .mark ","], .plain) := rfl
  have hlength : scan (.number b.length) " \x7d,\n".toList =
      some ([.number b.length, .mark "\x7d", .mark ","], .lineStart) := rfl
  have hline := scan_append_of hbefore (scan_append_of (scan_number_bracket index hindex)
    (scan_append_of (scan_append_of (scan_number b.offset) hoffset) (scan_append_of (scan_number b.length) hlength)))
  simpa [Lexes, bucketLine, elementTokens] using hline

private def bucketStart : List Token := [.word "static", .word "const", .word "struct", .mark "\x7b", .word "bool",
  .word "valid", .mark ";", .word "size_t", .word "offset", .mark ";", .word "size_t", .word "size", .mark ";",
  .mark "\x7d", .word "bucket_init", .mark "[", .word "PARSER_TABLE_BUCKETS", .mark "]", .mark "=", .mark "\x7b"]

private theorem bucketElements?_tokens {elements : List (Nat × Bucket)} (h : ∀ e ∈ elements, e.2.valid = true) :
    bucketElements? (elements.flatMap elementTokens ++ arrayEnd) = some elements := by
  induction elements with
  | nil => rfl
  | cons element elements ih =>
    obtain ⟨index, valid, offset, length⟩ := element
    obtain rfl : valid = true := h _ List.mem_cons_self
    rw [List.flatMap_cons, List.append_assoc]
    simp [elementTokens, bucketElements?, ih fun e he => h e (List.mem_cons_of_mem _ he)]

/-- The valid buckets of a table with their indices. -/
def validElements (t : PackedTable) : List (Nat × Bucket) :=
  t.buckets.toList.zipIdx.filterMap fun (b, i) => if b.valid then some (i, b) else none

private theorem declares_buckets (t : PackedTable) :
    Declares (bucketLines t) { buckets := [("PARSER_TABLE_BUCKETS", validElements t)] } := by
  have hlines : (t.buckets.toList.zipIdx.filterMap fun (b, i) => if b.valid then some (bucketLine b i) else none) =
      (validElements t).map fun e => bucketLine e.2 e.1 := by
    rw [validElements, List.map_filterMap]
    refine congrArg (List.filterMap · _) (funext fun ⟨b, i⟩ => ?_)
    cases hb : b.valid <;> simp [hb]
  have hvalid : ∀ e ∈ validElements t, e.2.valid = true := by
    intro e he
    obtain ⟨⟨b, i⟩, -, hb⟩ := List.mem_filterMap.mp he
    by_cases hv : b.valid = true
    · simp only [if_pos hv, Option.some.injEq] at hb
      rw [← hb]
      exact hv
    · simp [hv] at hb
  have hfirst : Lexes (chars ["static const struct \x7b", "    bool valid;", "    size_t offset;", "    size_t size;",
      "\x7d bucket_init[PARSER_TABLE_BUCKETS] = \x7b"]) bucketStart := by
    apply lexes_of_chars
    · repeat apply chars_cons
      exact chars_nil
    · rfl
  have hlast : Lexes (chars ["\x7d;", ""]) arrayEnd := rfl
  have helements : Lexes (chars ((validElements t).map fun e => bucketLine e.2 e.1))
      ((validElements t).flatMap elementTokens) := by
    rw [chars_map]
    exact Lexes.flatMap _ fun e _ => lexes_bucketLine e.2 e.1
  refine ⟨bucketStart ++ ((validElements t).flatMap elementTokens ++ arrayEnd), _, ?_,
    cut_enclosed "\x7d" [] false rfl (GoesOn.flatMap _ fun _ _ _ _ _ => rfl) fun _ => rfl, ?_⟩
  · rw [bucketLines, hlines, chars_append, chars_append, List.append_assoc]
    exact hfirst.append (helements.append hlast)
  · have hread : buckets? (bucketStart ++ ((validElements t).flatMap elementTokens ++ arrayEnd)) =
        (bucketElements? ((validElements t).flatMap elementTokens ++ arrayEnd)).bind fun elements =>
          some ("PARSER_TABLE_BUCKETS", elements) := rfl
    rw [found_singleton, hread, bucketElements?_tokens hvalid, Option.bind_some]
    rfl

/-! ### The index function -/

/-- The index of a bucket in terms of the major and the minor symbol. -/
def indexOfPair (major minor : String) (shift : Nat) : Expression :=
  .binary .remainder (.binary .add (.binary .shiftLeft (.toSize (.name major)) (.number shift)) (.toSize (.name minor)))
    (.name "PARSER_TABLE_BUCKETS")

/-- The expression for the index of a bucket. -/
def indexOf (t : PackedTable) : Expression :=
  match t.major with
  | .nonterminal => indexOfPair "nterm" "term" t.shift.toNat
  | .terminal => indexOfPair "term" "nterm" t.shift.toNat

private def indexStart : List Token := [.word "size_t", .word "parser_get_table_index", .mark "(",
  .word "nterm_type_t", .word "nterm", .mark ",", .word "term_type_t", .word "term", .mark ")", .mark "\x7b"]

private def returnTokens (major minor : String) (shift : Nat) : List Token :=
  [.word "return", .mark "(", .mark "(", .mark "(", .word "size_t", .mark ")", .word major, .mark "<<", .number shift,
    .mark ")", .mark "+", .mark "(", .word "size_t", .mark ")", .word minor, .mark ")", .mark "%",
    .word "PARSER_TABLE_BUCKETS", .mark ";"]

private theorem lexes_return {major minor : String} (hmajor : isIdentifier major = true)
    (hminor : isIdentifier minor = true) (shift : Nat) :
    Lexes (("    return " ++ ("(((size_t) " ++ major ++ " << " ++ toString shift ++ ") + (size_t) " ++ minor ++
      ") % PARSER_TABLE_BUCKETS") ++ ";").toList ++ ['\n']) (returnTokens major minor shift) := by
  have hbefore : scan .lineStart ("    return ".toList ++ "(((size_t) ".toList) =
      some ([.word "return", .mark "(", .mark "(", .mark "(", .word "size_t", .mark ")"], .plain) := by rfl
  have hshift : ∀ read, scan (.word read) " << ".toList = some ([.word (spelled read), .mark "<<"], .plain) :=
    fun _ => rfl
  have hadd : scan (.number shift) ") + (size_t) ".toList =
      some ([.number shift, .mark ")", .mark "+", .mark "(", .word "size_t", .mark ")"], .plain) := rfl
  have hremainder : ∀ read, scan (.word read) (") % PARSER_TABLE_BUCKETS".toList ++ (";".toList ++ ['\n'])) =
      some ([.word (spelled read), .mark ")", .mark "%", .word "PARSER_TABLE_BUCKETS", .mark ";"], .lineStart) :=
    fun _ => rfl
  have hsecond := scan_name_between hminor hadd (.inl rfl) hremainder
  have hline := scan_name_between hmajor hbefore (.inl rfl) fun read =>
    scan_number_between shift (hshift read) hsecond
  simp only [Lexes, String.toList_append, List.append_assoc] at hline ⊢
  exact hline

private theorem declares_index (t : PackedTable) : Declares (indexLines t) { indices := [indexOf t] } := by
  have hfirst : Lexes (chars ["size_t parser_get_table_index(nterm_type_t nterm, term_type_t term)", "\x7b"])
      indexStart := by
    apply lexes_of_chars
    · repeat apply chars_cons
      exact chars_nil
    · rfl
  have hlast : Lexes (chars ["\x7d", ""]) [.mark "\x7d"] := rfl
  obtain ⟨major, minor, hmajor, hminor, htext, hindex⟩ : ∃ major minor, isIdentifier major = true ∧
      isIdentifier minor = true ∧ indexExpression t = "(((size_t) " ++ major ++ " << " ++ toString t.shift.toNat ++
        ") + (size_t) " ++ minor ++ ") % PARSER_TABLE_BUCKETS" ∧
      indexOf t = indexOfPair major minor t.shift.toNat := by
    unfold indexExpression indexOf
    cases t.major with
    | nonterminal => exact ⟨"nterm", "term", by decide, by decide, rfl, rfl⟩
    | terminal => exact ⟨"term", "nterm", by decide, by decide, rfl, rfl⟩
  have hreturn := lexes_return hmajor hminor t.shift.toNat
  rw [← htext] at hreturn
  rw [hindex]
  refine ⟨indexStart ++ (returnTokens major minor t.shift.toNat ++ [Token.mark "\x7d"]), _, ?_, rfl, rfl⟩
  have hlexes := hfirst.append (hreturn.append hlast)
  simpa only [indexLines, chars, List.flatMap_cons, List.flatMap_nil, List.append_nil, List.append_assoc] using hlexes

/-! ### Display names -/

private def readableStart (function type kind : String) : List Token :=
  [.word "const", .word "char", .mark "*", .word function, .mark "(", .word type, .word kind, .mark ")", .mark "\x7b",
    .word "switch", .mark "(", .word kind, .mark ")", .mark "\x7b"]

private def caseTokens (pair : String × String) : List Token :=
  [.word "case", .word pair.2, .mark ":", .word "return", .text (spelling pair.1), .mark ";"]

private def readableEnd (unknown : String) : List Token :=
  [.mark "\x7d", .word "return", .text unknown, .mark ";", .mark "\x7d"]

private theorem lexes_case {display constant : String} (h : isIdentifier constant = true) :
    Lexes (chars ["    case " ++ constant ++ ":", "        return " ++ literal display ++ ";"])
      (caseTokens (display, constant)) := by
  have hcase : scan .lineStart "    case ".toList = some ([.word "case"], .plain) := rfl
  have hcolon : ∀ read, scan (.word read) (":".toList ++ ['\n']) =
      some ([.word (spelled read), .mark ":"], .lineStart) := fun _ => rfl
  have hreturn : scan .lineStart "        return ".toList = some ([.word "return"], .plain) := rfl
  have hend : scan .plain (";".toList ++ ['\n']) = some ([.mark ";"], .lineStart) := rfl
  have hsecond : Lexes (("        return " ++ literal display ++ ";").toList ++ ['\n'])
      [.word "return", .text (spelling display), .mark ";"] := by
    rw [Lexes, String.toList_append, String.toList_append, List.append_assoc, List.append_assoc]
    exact scan_append_of hreturn (scan_append_of (scan_literal display) hend)
  have hlexes := (lexes_line h hcase (.inl rfl) hcolon).append hsecond
  simp only [chars, List.flatMap_cons, List.flatMap_nil, List.append_nil]
  exact hlexes

/-- A function to display names says nothing about the table. -/
private theorem declares_readable {kind : String} (hkind : kind = "nterm" ∨ kind = "term") {constants : List String}
    (displays : List String) (h : ∀ c ∈ constants, isIdentifier c = true) :
    Declares (readableLines kind constants displays) {} := by
  have hfirst : Lexes (chars ["const char *" ++ kind ++ "_to_readable(" ++ kind ++ "_type_t " ++ kind ++ ")", "\x7b",
      "    switch(" ++ kind ++ ") \x7b"]) (readableStart (kind ++ "_to_readable") (kind ++ "_type_t") kind) := by
    rcases hkind with rfl | rfl
    all_goals
      simp only [String.reduceAppend]
      apply lexes_of_chars
      · repeat apply chars_cons
        exact chars_nil
      · rfl
  have hcases : Lexes (chars ((displays.zip constants).flatMap fun pair =>
      ["    case " ++ pair.2 ++ ":", "        return " ++ literal pair.1 ++ ";"]))
      ((displays.zip constants).flatMap caseTokens) := by
    rw [chars_flatMap]
    refine Lexes.flatMap _ ?_
    rintro ⟨display, constant⟩ hpair
    exact lexes_case (h constant (List.of_mem_zip hpair).2)
  have hlast : Lexes (chars ["    \x7d", "    return \"<unknown-" ++ kind ++ ">\";", "\x7d", ""])
      (readableEnd ("<unknown-" ++ kind ++ ">")) := by
    rcases hkind with rfl | rfl
    all_goals
      simp only [String.reduceAppend]
      apply lexes_of_chars
      · repeat apply chars_cons
        exact chars_nil
      · rfl
  refine ⟨readableStart (kind ++ "_to_readable") (kind ++ "_type_t") kind ++
    ((displays.zip constants).flatMap caseTokens ++ readableEnd ("<unknown-" ++ kind ++ ">")), _, ?_,
    cut_enclosed "\x7d" ["\x7d"] true rfl (GoesOn.flatMap _ fun _ _ _ _ _ => rfl) fun _ => rfl, rfl⟩
  rw [readableLines, chars_append, chars_append, List.append_assoc]
  exact hfirst.append (hcases.append hlast)

/-! ### Other lines that are given -/

private theorem declares_headerStart : Declares (banner Program.emitName ++ ["#pragma once", "",
    "#include <stddef.h>", "#include <stdint.h>", "#include <stdbool.h>", "",
    "// enumerator order is the hash order; do not reorder"]) {} := by
  simp only [banner, Program.emitName, String.reduceAppend]
  apply Declares.of_declared
  · repeat apply chars_cons
    exact chars_nil
  · rfl

private theorem declares_prototypes : Declares prototypes {} := by
  apply Declares.of_declared
  · repeat apply chars_cons
    exact chars_nil
  · rfl

private theorem declares_sourceStart (header : String) : Declares (banner Program.emitName ++
    ["#include <stdlib.h>", "#include <string.h>", "", "#include " ++ literal header, "", "parser_table_t *table;", ""])
    {} := by
  have hbefore : Declares (banner Program.emitName ++ ["#include <stdlib.h>", "#include <string.h>", ""]) {} := by
    simp only [banner, Program.emitName, String.reduceAppend]
    apply Declares.of_declared
    · repeat apply chars_cons
      exact chars_nil
    · rfl
  have hafter : Declares ["parser_table_t *table;", ""] {} := by
    apply Declares.of_declared
    · repeat apply chars_cons
      exact chars_nil
    · rfl
  exact (hbefore.append (declares_include header)).append hafter

private theorem declares_free : Declares freeLines {} := by
  apply Declares.of_declared
  · repeat apply chars_cons
    exact chars_nil
  · rfl

/-! ### Structures and setting up -/

/-- Lines that declare what is read of other lines. -/
private theorem declares_read {α : Type} (read : List Char → Option α) {said : α → Found} {lines others : List String}
    {cs cs' : List Char} (hlines : chars lines = cs) (hothers : chars others = cs')
    (h : declared? cs = (read cs').map said) (hsome : (read cs').isSome = true) :
    ∃ a, read (ofLines others).toList = some a ∧ Declares lines (said a) := by
  obtain ⟨a, ha⟩ := Option.isSome_iff_exists.mp hsome
  rw [ha, Option.map_some] at h
  rw [← hothers, ← toList_ofLines] at ha
  exact ⟨a, ha, .of_declared hlines h⟩

/-- The types in the header are the structures of a table. -/
private theorem declares_types : ∃ structures, declarations? (ofLines structureTexts) = some structures ∧
    Declares typeDeclarations { structures } := by
  apply declares_read fun cs => do
    let (ds, s) ← cut {} (← tokens? cs)
    if s = {} then some ds else none
  · repeat apply chars_cons
    exact chars_nil
  · repeat apply chars_cons
    exact chars_nil
  · rfl
  · rfl

/-- The function that sets the table up copies the pool and fills the valid buckets. -/
private theorem declares_init (t : PackedTable) : ∃ ts,
    tokens? (ofLines (setUpBody (!t.pool.isEmpty))).toList = some ts ∧ Declares (initLines t) { setUps := [ts] } := by
  unfold initLines
  cases t.pool.isEmpty with
  | true =>
    apply declares_read tokens?
    · repeat apply chars_cons
      exact chars_nil
    · repeat apply chars_cons
      exact chars_nil
    · rfl
    · rfl
  | false =>
    apply declares_read tokens?
    · repeat apply chars_cons
      exact chars_nil
    · repeat apply chars_cons
      exact chars_nil
    · rfl
    · rfl

/-! ### Header and source -/

theorem declares_header {t : PackedTable}
    (hn : ∀ c ∈ t.symbols.nonterminalNames.map nonterminalConstant, isIdentifier c = true)
    (ht : ∀ c ∈ t.symbols.terminalNames.map terminalConstant, isIdentifier c = true) :
    ∃ structures, declarations? (ofLines structureTexts) = some structures ∧
      Declares (headerLines t Program.emitName) {
        nonterminals := [t.symbols.nonterminalNames.map nonterminalConstant]
        terminals := [t.symbols.terminalNames.map terminalConstant]
        structures
        bucketCounts := [t.modulus.toNat] } := by
  obtain ⟨structures, hstructures, htypes⟩ := declares_types
  have hparts := ((((declares_headerStart.append (declares_nonterminals hn)).append (declares_terminals ht)).append
    htypes).append (declares_bucketCount t.modulus.toNat)).append declares_prototypes
  refine ⟨structures, hstructures, ?_⟩
  simpa [Found.append, headerLines] using hparts

private theorem declares_poolLines {t : PackedTable} (h : Constants t.symbols) : Declares (poolLines t) {
    slotCounts := [t.pool.length]
    pools := if t.pool.isEmpty then [] else [("PARSER_POOL_SLOTS", t.pool.map (namedSlot t.symbols))] } := by
  have hcopy : Declares ["static nut_type_t *pool;", ""] {} := by
    apply Declares.of_declared
    · repeat apply chars_cons
      exact chars_nil
    · rfl
  have hcount := (declares_slotCount t.pool.length).append hcopy
  unfold poolLines
  cases t.pool.isEmpty with
  | true => exact hcount
  | false => exact hcount.append (declares_pool h t.pool)

theorem declares_source {t : PackedTable} (h : Constants t.symbols)
    (hn : ∀ c ∈ t.symbols.nonterminalNames.map nonterminalConstant, isIdentifier c = true)
    (ht : ∀ c ∈ t.symbols.terminalNames.map terminalConstant, isIdentifier c = true) (header : String) :
    ∃ setUp, tokens? (ofLines (setUpBody (!t.pool.isEmpty))).toList = some setUp ∧
      Declares (sourceLines t Program.emitName header) {
        slotCounts := [t.pool.length]
        pools := if t.pool.isEmpty then [] else [("PARSER_POOL_SLOTS", t.pool.map (namedSlot t.symbols))]
        buckets := [("PARSER_TABLE_BUCKETS", validElements t)]
        indices := [indexOf t]
        setUps := [setUp] } := by
  obtain ⟨setUp, htokens, hinit⟩ := declares_init t
  have hparts := (((((((declares_sourceStart header).append (declares_poolLines h)).append (declares_buckets t)).append
    (declares_index t)).append (declares_readable (.inl rfl) t.symbols.nonterminals hn)).append
    (declares_readable (.inr rfl) t.symbols.terminals ht)).append hinit).append declares_free
  refine ⟨setUp, htokens, ?_⟩
  simpa [Found.append, sourceLines] using hparts

end Predictive.CText
