import Predictive.Packed.Recognizer
import Predictive.Proofs.Packed.Lookup
import Predictive.Proofs.Table.Recognition

/-!
# Packed tables recognise the language

The parser of a packed table is compared with the one of its prediction table move by move (`ParserState.walk`). Both
make the same moves, with symbols by position in the layout on the one side, as long as only keys of the table are
asked for: this is one step of a simulation (`ParserState.Simulates.step`) carried along a run. A word of the language
is accepted without asking for anything else, so a packed table accepts it too.

Pairs that are no keys may find the bucket of another key, and then the parsers part. If this never happens
(`Layout.Separates`) they agree for good, and the packed table accepts exactly the language.
-/

namespace Predictive

namespace ParserState

/-! ### Moves -/

/-- What a step does to the stack: it puts symbols in place of the nonterminal on top, or matches the terminal on top
with the next one. -/
inductive Move where
  | push (n : Nonterminal) (symbols : List Symbol)
  | read (t : Terminal)
deriving DecidableEq

/-- The move of the next step, unless it rejects. -/
def move? (predict : Predictor) : ParserState → Option Move
  | ⟨.terminal x :: _, look :: _⟩ => if x = look then some (.read x) else none
  | ⟨.nonterminal n :: _, look :: _⟩ => (predict n look).map (.push n)
  | _ => none

/-- The moves of a number of steps, and where they lead. -/
def walk (predict : Predictor) (eof : Terminal) : Nat → ParserState → List Move × ParserStep
  | 0, s => ([], .more s)
  | k + 1, s =>
    match s.step predict eof with
    | .verdict accepted => ((s.move? predict).toList, .verdict accepted)
    | .more next => ((s.move? predict).toList ++ (walk predict eof k next).1, (walk predict eof k next).2)

/-- The key that the next step asks for. -/
def asksFor : ParserState → Option Key
  | ⟨.nonterminal n :: _, look :: _⟩ => some (n, look)
  | _ => none

/-- A number of steps ask only for keys with a property. -/
def AsksOnly (p : Key → Prop) (predict : Predictor) (eof : Terminal) : Nat → ParserState → Prop
  | 0, _ => True
  | k + 1, s =>
    (∀ key, s.asksFor = some key → p key) ∧ ∀ next, s.step predict eof = .more next → AsksOnly p predict eof k next

variable {predict : Predictor} {eof : Terminal} {p : Key → Prop}

/-- A run gives the verdict that its moves lead to. -/
theorem run_eq_some_iff_walk {k : Nat} {s : ParserState} {b : Bool} :
    s.run predict eof k = some b ↔ (s.walk predict eof k).2 = .verdict b := by
  induction k generalizing s with
  | zero => simp [run, walk]
  | succ k ih =>
    rw [run_succ, walk]
    cases s.step predict eof with
    | more next => exact ih
    | verdict accepted => simp

/-- A parser that accepts has found everything that it asked for. -/
theorem asksOnly_of_run {k : Nat} {s : ParserState} (h : s.run predict eof k = some true) :
    s.AsksOnly (fun key => (predict key.1 key.2).isSome) predict eof k := by
  induction k generalizing s with
  | zero => trivial
  | succ k ih =>
    rw [run_succ] at h
    refine ⟨?_, fun next hs => ih (by rwa [hs] at h)⟩
    rintro ⟨n, look⟩ hkey
    rcases s with ⟨_ | ⟨_ | m, stack⟩, _ | ⟨x, rest⟩⟩ <;> simp only [asksFor, reduceCtorEq] at hkey
    obtain ⟨rfl, rfl⟩ := Prod.mk.inj (Option.some.inj hkey)
    rw [step_nonterminal] at h
    cases hpred : predict m x with
    | some symbols => rfl
    | none => simp [hpred] at h

theorem AsksOnly.mono {q : Key → Prop} (hpq : ∀ key, p key → q key) {k : Nat} {s : ParserState}
    (h : s.AsksOnly p predict eof k) : s.AsksOnly q predict eof k := by
  induction k generalizing s with
  | zero => trivial
  | succ k ih => exact ⟨fun key hkey => hpq key (h.1 key hkey), fun next hs => ih (h.2 next hs)⟩

theorem asksOnly_true (k : Nat) (s : ParserState) : s.AsksOnly (fun _ => True) predict eof k := by
  induction k generalizing s with
  | zero => trivial
  | succ k ih => exact ⟨fun _ _ => trivial, fun next _ => ih next⟩

/-! ### Symbols by position -/

/-- A state with symbols of the grammar only. -/
structure Valid (g : Grammar) (s : ParserState) : Prop where
  stack : ∀ x ∈ s.stack, g.InRange x
  input : ∀ t ∈ s.input, t < g.terminals.length

/-- A state with its symbols by position. -/
def byPosition (num : Numbering) (s : ParserState) : ParserState :=
  ⟨s.stack.map (PackedTable.slot num), s.input.map num.terminalAt⟩

end ParserState

open ParserState

def ParserStep.byPosition (num : Numbering) : ParserStep → ParserStep
  | .more s => .more (s.byPosition num)
  | .verdict accepted => .verdict accepted

def ParserState.Move.byPosition (num : Numbering) : Move → Move
  | .push n symbols => .push (num.nonterminalAt n) (symbols.map (PackedTable.slot num))
  | .read t => .read (num.terminalAt t)

namespace ParserState

/-- One prediction function does by number what the other does by position, for keys with a property. -/
structure Simulates (g : Grammar) (num : Numbering) (p : Key → Prop) (predict predict' : Predictor) : Prop where
  injective : ∀ t < g.terminals.length, ∀ u < g.terminals.length, num.terminalAt t = num.terminalAt u → t = u
  inRange : ∀ n t symbols, predict n t = some symbols → ∀ x ∈ symbols, g.InRange x
  agree : ∀ n < g.nonterminals.length, ∀ t < g.terminals.length, p (n, t) →
    predict' (num.nonterminalAt n) (num.terminalAt t) = (predict n t).map (·.map (PackedTable.slot num))

namespace Simulates

variable {g : Grammar} {num : Numbering} {p : Key → Prop} {predict predict' : Predictor} {eof : Terminal}

variable (h : Simulates g num p predict predict')

include h

/-- A step leads to symbols of the grammar only. -/
theorem valid_step {s next : ParserState} (hs : s.Valid g) (hstep : s.step predict eof = .more next) :
    next.Valid g := by
  obtain ⟨hstack, hinput⟩ := hs
  rcases s with ⟨_ | ⟨x | n, stack⟩, _ | ⟨look, rest⟩⟩
  · simp [step] at hstep
  · simp [step] at hstep
  · simp [step] at hstep
  · rw [step_terminal] at hstep
    split at hstep
    · simp at hstep
    · split at hstep
      · simp at hstep
      · obtain rfl := ParserStep.more.inj hstep
        exact ⟨fun y hy => hstack y (List.mem_cons_of_mem _ hy), fun y hy => hinput y (List.mem_cons_of_mem _ hy)⟩
  · simp [step] at hstep
  · rw [step_nonterminal] at hstep
    cases hpred : predict n look with
    | none => simp [hpred] at hstep
    | some symbols =>
      rw [hpred] at hstep
      obtain rfl := ParserStep.more.inj hstep
      refine ⟨fun y hy => ?_, hinput⟩
      rcases List.mem_append.mp hy with hy | hy
      · exact h.inRange n look symbols hpred y hy
      · exact hstack y (List.mem_cons_of_mem _ hy)

/-- One step of the simulation: the same move, and the same end. -/
theorem step {s : ParserState} (hs : s.Valid g) (heof : eof < g.terminals.length)
    (hkey : ∀ key, s.asksFor = some key → p key) :
    (s.byPosition num).step predict' (num.terminalAt eof) = (s.step predict eof).byPosition num ∧
      (s.byPosition num).move? predict' = (s.move? predict).map (·.byPosition num) := by
  obtain ⟨hstack, hinput⟩ := hs
  rcases s with ⟨_ | ⟨x | n, stack⟩, _ | ⟨look, rest⟩⟩
  · exact ⟨rfl, rfl⟩
  · exact ⟨rfl, rfl⟩
  · exact ⟨rfl, rfl⟩
  · have hx : x < g.terminals.length := hstack _ List.mem_cons_self
    have hl : look < g.terminals.length := hinput _ List.mem_cons_self
    have hlook : num.terminalAt x = num.terminalAt look ↔ x = look :=
      ⟨h.injective x hx look hl, congrArg _⟩
    have hend : num.terminalAt x = num.terminalAt eof ↔ x = eof :=
      ⟨h.injective x hx eof heof, congrArg _⟩
    simp only [ParserState.byPosition, List.map_cons, PackedTable.slot, step_terminal, move?, ne_eq, hlook, hend]
    constructor
    · split
      · rfl
      · split
        · simp [ParserStep.byPosition]
        · rfl
    · split <;> rfl
  · exact ⟨rfl, rfl⟩
  · have hagree := h.agree n (hstack _ List.mem_cons_self) look (hinput _ List.mem_cons_self) (hkey _ rfl)
    simp only [ParserState.byPosition, List.map_cons, PackedTable.slot, step_nonterminal, move?, hagree]
    cases predict n look with
    | none => exact ⟨rfl, rfl⟩
    | some symbols => exact ⟨by simp [ParserStep.byPosition, ParserState.byPosition], rfl⟩

/-- Parsers that ask only for such keys make the same moves. -/
theorem walk {k : Nat} {s : ParserState} (hs : s.Valid g) (heof : eof < g.terminals.length)
    (hkeys : s.AsksOnly p predict eof k) :
    (s.byPosition num).walk predict' (num.terminalAt eof) k =
      ((s.walk predict eof k).1.map (·.byPosition num), (s.walk predict eof k).2.byPosition num) := by
  induction k generalizing s with
  | zero => rfl
  | succ k ih =>
    obtain ⟨hstep, hmove⟩ := h.step hs heof hkeys.1
    rw [ParserState.walk, ParserState.walk, hstep, hmove]
    cases hnext : s.step predict eof with
    | verdict accepted => simp [ParserStep.byPosition, Option.toList_map]
    | more next =>
      have ih' := ih (h.valid_step hs hnext) (hkeys.2 next hnext)
      show (_ ++ ((next.byPosition num).walk predict' (num.terminalAt eof) k).1, _) = _
      rw [ih', Option.toList_map, ← List.map_append]

end Simulates

end ParserState

/-! ### The parser of a packed table -/

theorem Grammar.WellFormed.terminalName_eof {g : Grammar} (hg : g.WellFormed) : g.terminalName g.eof = endMarker := by
  have hlast := hg.last_terminal
  rw [List.getLast?_eq_getElem?] at hlast
  rw [Grammar.terminalName, Grammar.eof, List.getD_eq_getElem?_getD, hlast, Option.getD_some]

namespace SymbolNames

variable {l : Layout} {symbols : SymbolNames}

/-- The symbols of a packed table stand in the order of the layout. -/
theorem displays_of_ofLayout (h : ofLayout l = .ok symbols) :
    symbols.terminals = l.terminals ∧ symbols.nonterminals = l.nonterminals := by
  simp only [ofLayout, bind_eq_ok, pure, Except.pure, Except.ok.injEq] at h
  obtain ⟨_, -, _, -, rfl⟩ := h
  exact ⟨rfl, rfl⟩

private theorem mapM_terminal? {f : Terminal → String} {position : Terminal → Nat} {w : List Terminal}
    (h : ∀ x ∈ w, symbols.terminal? (f x) = some (position x)) :
    (w.map f).mapM symbols.terminal? = some (w.map position) := by
  induction w with
  | nil => rfl
  | cons x w ih =>
    have ih' := ih fun y hy => h y (List.mem_cons_of_mem x hy)
    simp [h x List.mem_cons_self, ih']

private theorem mem_of_mapM_terminal? {names : List String} {positions : List Nat}
    (h : names.mapM symbols.terminal? = some positions) : ∀ name ∈ names, name ∈ symbols.terminals := by
  induction names generalizing positions with
  | nil => simp
  | cons name names ih =>
    simp only [List.mapM_cons, Option.bind_eq_bind, Option.bind_eq_some_iff] at h
    obtain ⟨position, hposition, rest, hrest, -⟩ := h
    have hname : name ∈ symbols.terminals :=
      List.isSome_idxOf?.mp (Option.isSome_iff_exists.mpr ⟨position, hposition⟩)
    exact List.forall_mem_cons.mpr ⟨hname, ih hrest⟩

end SymbolNames

/-- What the bucket of a pair says is right: the pair is a key, or no key has its bucket. -/
def Layout.Tells (l : Layout) (num : Numbering) (table : Table) (pair : Key) : Prop :=
  pair ∈ table.keys ∨ ∀ key ∈ table.keys, l.keyBucket num key ≠ l.keyBucket num pair

instance (l : Layout) (num : Numbering) (table : Table) (pair : Key) : Decidable (l.Tells num table pair) :=
  inferInstanceAs (Decidable (_ ∨ _))

/-- No pair of positions other than those of the keys shares a bucket with a key. -/
def Layout.Separates (l : Layout) (num : Numbering) (table : Table) : Prop :=
  ∀ i < l.nonterminals.length, ∀ j < l.terminals.length,
    (∀ key ∈ table.keys, (num.nonterminalAt key.1, num.terminalAt key.2) ≠ (i, j)) →
    ∀ key ∈ table.keys, l.keyBucket num key ≠ l.bucket i j

namespace PackedTable

variable {g : Grammar} {c : Compiled} {l : Layout} {t : PackedTable}

/-- The parser of a packed table follows that of a table on a word for a number of steps: it makes the same moves, with
symbols by position, and comes to the same end. -/
def Follows (t : PackedTable) (table : Table) (g : Grammar) (num : Numbering) (w : List Terminal) (k : Nat) : Prop :=
  ∃ s, t.initial? (g.nonterminalName g.start) (w.map g.terminalName) = some s ∧
    s.walk t.lookup t.eof k =
      (((initial g.start g.eof w).walk (table.predictor g) g.eof k).1.map (·.byPosition num),
        ((initial g.start g.eof w).walk (table.predictor g) g.eof k).2.byPosition num)

/-- A packed table that follows a table gives its verdict. -/
theorem Follows.run_eq {table : Table} {num : Numbering} {w : List Terminal} {k : Nat}
    (h : t.Follows table g num w k) {s : ParserState}
    (hs : t.initial? (g.nonterminalName g.start) (w.map g.terminalName) = some s) {b : Bool} :
    s.run t.lookup t.eof k = some b ↔ (initial g.start g.eof w).run (table.predictor g) g.eof k = some b := by
  obtain ⟨s', hs', hwalk⟩ := h
  obtain rfl : s' = s := Option.some.inj (hs'.symm.trans hs)
  rw [run_eq_some_iff_walk, run_eq_some_iff_walk, hwalk]
  cases ((initial g.start g.eof w).walk (table.predictor g) g.eof k).2 <;> simp [ParserStep.byPosition]

section Simulation

variable (hg : g.WellFormed) (hc : Compiled.compile g = .ok c) (hm : l.modulus ≠ 0) (hs : l.shift.toNat < 64)
  (hp : pack g c.table l = .ok t)

include hg hc

private theorem inRange_of_predictor {n : Nonterminal} {x : Terminal} {symbols : List Symbol}
    (h : c.table.predictor g n x = some symbols) : ∀ y ∈ symbols, g.InRange y := by
  obtain ⟨q, hq, -, rfl | ⟨rfl, -⟩⟩ := Compiled.production_of_predictor hg hc h
  · exact hg.inRange_rhs hq
  · simp

omit hg in
theorem mem_keys_iff {n : Nonterminal} {x : Terminal} :
    (n, x) ∈ c.table.keys ↔ (c.table.predictor g n x).isSome := by
  have hnodup := Table.nodup_keys (Compiled.build_of_compile hc)
  simp only [Table.predictor, Option.isSome_map, Table.get?, Option.isSome_iff_exists,
    lookup_eq_some_iff_mem hnodup, Table.keys, List.mem_map, Prod.exists]
  constructor
  · rintro ⟨a, b, p, hmem, heq⟩
    exact ⟨p, by simpa [heq] using hmem⟩
  · rintro ⟨p, hmem⟩
    exact ⟨n, x, p, hmem, rfl⟩

include hm hs hp

/-- On the keys of its table a packed table does by position what the table does by number. -/
theorem simulates_keys : Simulates g (.ofNames g l) (· ∈ c.table.keys) (c.table.predictor g) t.lookup := by
  have hfits := fits_of_pack hg hm hs hp
  have hnodup := Table.nodup_keys (Compiled.build_of_compile hc)
  refine ⟨fun x hx y hy heq => hfits.terminalAt_inj hg hx hy heq, fun n x symbols h => inRange_of_predictor hg hc h, ?_⟩
  intro n _ x _ hkey
  obtain ⟨⟨key, p⟩, hmem, hkey⟩ := List.mem_map.mp hkey
  obtain rfl : key = (n, x) := hkey
  have hget : c.table.get? n x = some p := (lookup_eq_some_iff_mem hnodup).mpr hmem
  rw [lookup_key hg hm hs hp hmem, Table.predictor, hget, Option.map_some, Option.map_some, slots]

/-- So it does on all pairs that the buckets tell from the keys. -/
theorem simulates_told :
    Simulates g (.ofNames g l) (l.Tells (.ofNames g l) c.table) (c.table.predictor g) t.lookup := by
  have hkeys := simulates_keys hg hc hm hs hp
  refine ⟨hkeys.injective, hkeys.inRange, fun n hn x hx htold => ?_⟩
  by_cases hkey : (n, x) ∈ c.table.keys
  · exact hkeys.agree n hn x hx hkey
  have hpred : c.table.predictor g n x = none := by
    simpa [mem_keys_iff hc] using hkey
  rw [hpred, Option.map_none, Option.eq_none_iff_forall_ne_some]
  -- a payload found there would be that of a key with the same bucket
  intro payload hpayload
  obtain ⟨key, p, hmem, hbucket, -⟩ := (lookup_eq_some hg hm hs hp).mp hpayload
  exact htold.resolve_left hkey key (List.mem_map_of_mem hmem) hbucket

/-- A packed table that tells all pairs from the keys does so everywhere. -/
theorem simulates_all (hsep : l.Separates (.ofNames g l) c.table) :
    Simulates g (.ofNames g l) (fun _ => True) (c.table.predictor g) t.lookup := by
  have htold := simulates_told hg hc hm hs hp
  have hfits := fits_of_pack hg hm hs hp
  refine ⟨htold.injective, htold.inRange, fun n hn x hx _ => htold.agree n hn x hx ?_⟩
  by_cases hkey : (n, x) ∈ c.table.keys
  · exact Or.inl hkey
  refine Or.inr fun key hmem => hsep _ (hfits.nonterminalAt_lt hn) _ (hfits.terminalAt_lt hx) ?_ key hmem
  rintro ⟨m, y⟩ hmy heq
  obtain ⟨hm', hy'⟩ := Table.key_lt (Compiled.build_of_compile hc) hmy
  obtain ⟨heqn, heqt⟩ := Prod.mk.inj heq
  obtain rfl := hfits.nonterminalAt_inj hg hm' hn heqn
  obtain rfl := hfits.terminalAt_inj hg hy' hx heqt
  exact hkey hmy

omit hc in
/-- The end marker of a packed table is that of the grammar. -/
theorem eof_eq : t.eof = (Numbering.ofNames g l).terminalAt g.eof := by
  obtain ⟨-, hfits, -, symbols, hsymbols, rfl⟩ := (pack_eq_ok hg hm hs).mp hp
  have hmark : endMarker ∈ l.terminals :=
    hfits.terminals.mem_iff.mpr (hg.terminalName_eof ▸ getD_mem hg.eof_lt "")
  rw [Numbering.terminalAt_ofNames hg.eof_lt, hg.terminalName_eof]
  simp [eof, laidOut, SymbolNames.terminal?, (SymbolNames.displays_of_ofLayout hsymbols).1, idxOf?_of_mem hmark]

/-! ### Words -/

omit hc in
/-- A word of terminals of the grammar has an initial state, that of the table by position. -/
theorem initial?_map_terminalName {w : List Terminal} (hw : ∀ x ∈ w, x < g.terminals.length) :
    t.initial? (g.nonterminalName g.start) (w.map g.terminalName) =
      some ((initial g.start g.eof w).byPosition (.ofNames g l)) := by
  have heof := eof_eq hg hm hs hp
  obtain ⟨-, hfits, -, symbols, hsymbols, rfl⟩ := (pack_eq_ok hg hm hs).mp hp
  obtain ⟨hterm, hnon⟩ := SymbolNames.displays_of_ofLayout hsymbols
  have hfind : ∀ x < g.terminals.length,
      symbols.terminal? (g.terminalName x) = some ((Numbering.ofNames g l).terminalAt x) := fun x hx => by
    rw [SymbolNames.terminal?, hterm, Numbering.terminalAt_ofNames hx]
    exact idxOf?_of_mem (hfits.terminals.mem_iff.mpr (getD_mem hx ""))
  have hstart : symbols.nonterminal? (g.nonterminalName g.start) =
      some ((Numbering.ofNames g l).nonterminalAt g.start) := by
    rw [SymbolNames.nonterminal?, hnon, Numbering.nonterminalAt_ofNames hg.start_lt]
    exact idxOf?_of_mem (hfits.nonterminals.mem_iff.mpr (getD_mem hg.start_lt ""))
  have hmark : symbols.terminal? endMarker = some ((Numbering.ofNames g l).terminalAt g.eof) := by
    rw [← hg.terminalName_eof, hfind g.eof hg.eof_lt]
  have hpositions : (w.map g.terminalName).mapM symbols.terminal? =
      some (w.map (Numbering.ofNames g l).terminalAt) :=
    SymbolNames.mapM_terminal? fun x hx => hfind x (hw x hx)
  have hfields : (laidOut g c.table l symbols).symbols = symbols := rfl
  simp only [initial?, positions?, hfields, hmark, hstart, hpositions]
  simp [initial, byPosition, slot]

omit hc in
/-- A word that has an initial state is one of terminals of the grammar. -/
theorem exists_word_of_initial? {start : String} {word : List String} {s : ParserState}
    (h : t.initial? start word = some s) :
    ∃ w : List Terminal, word = w.map g.terminalName ∧ ∀ x ∈ w, x < g.terminals.length := by
  obtain ⟨-, hfits, -, symbols, hsymbols, rfl⟩ := (pack_eq_ok hg hm hs).mp hp
  obtain ⟨hterm, -⟩ := SymbolNames.displays_of_ofLayout hsymbols
  simp only [initial?, positions?, Option.bind_eq_bind, Option.bind_eq_some_iff] at h
  obtain ⟨_, -, _, -, places, hplaces, -⟩ := h
  have hword : ∀ name ∈ word, name ∈ g.terminals := fun name hn =>
    hfits.terminals.mem_iff.mp (hterm ▸ SymbolNames.mem_of_mapM_terminal? hplaces name hn)
  refine ⟨word.map g.terminals.idxOf, ?_, ?_⟩
  · rw [List.map_map]
    exact (List.map_id' word).symm.trans (List.map_congr_left fun name hn => (getD_idxOf (hword name hn) "").symm)
  · intro x hx
    obtain ⟨name, hn, rfl⟩ := List.mem_map.mp hx
    exact List.idxOf_lt_length_of_mem (hword name hn)

omit hc hm hs hp in
private theorem valid_initial {w : List Terminal} (hw : ∀ x ∈ w, x < g.terminals.length) :
    (initial g.start g.eof w).Valid g := by
  constructor
  · simp only [initial, List.mem_cons, List.not_mem_nil, or_false, forall_eq_or_imp, forall_eq]
    exact ⟨hg.start_lt, hg.eof_lt⟩
  · simp only [initial, List.mem_append, List.mem_singleton]
    rintro x (hx | rfl)
    · exact hw x hx
    · exact hg.eof_lt

omit hc in
/-- On a word of terminals the packed table follows its table while only keys that the two agree on are asked for. -/
theorem follows_of_simulates {p : Key → Prop}
    (hsim : Simulates g (.ofNames g l) p (c.table.predictor g) t.lookup) {w : List Terminal}
    (hw : ∀ x ∈ w, x < g.terminals.length) {k : Nat}
    (hkeys : (initial g.start g.eof w).AsksOnly p (c.table.predictor g) g.eof k) :
    t.Follows c.table g (.ofNames g l) w k := by
  refine ⟨_, initial?_map_terminalName hg hm hs hp hw, ?_⟩
  rw [eof_eq hg hm hs hp]
  exact hsim.walk (valid_initial hg hw) hg.eof_lt hkeys

omit hc hm hs hp in
private theorem lt_of_generates {w : List Terminal} (h : g.Generates w) : ∀ x ∈ w, x < g.terminals.length := by
  intro x hx
  have hmark : g.Markless [.nonterminal g.start] := by simp [Grammar.Markless]
  exact Nat.lt_trans (h.markless hg hmark x (List.mem_map_of_mem hx)) hg.eof_lt

/-- A word that the table accepts is accepted by the packed table. -/
private theorem accepts_of_generates {w : List Terminal} (h : g.Generates w) :
    t.Accepts (g.nonterminalName g.start) (w.map g.terminalName) := by
  obtain ⟨k, hk⟩ := (Compiled.accepts_iff hg hc w).mpr h
  have hkeys := (asksOnly_of_run hk).mono fun key hkey => (mem_keys_iff hc).mpr hkey
  have hfollows := follows_of_simulates hg hm hs hp (simulates_keys hg hc hm hs hp) (lt_of_generates hg h) hkeys
  obtain ⟨s, hinit, -⟩ := id hfollows
  exact ⟨s, hinit, k, (hfollows.run_eq hinit).mpr hk⟩

/-- A packed table that follows its table for good on a word recognises it. -/
theorem recognizes_word {word : List String}
    (hfollows : ∀ w : List Terminal, (∀ x ∈ w, x < g.terminals.length) → word = w.map g.terminalName →
      ∀ k, t.Follows c.table g (.ofNames g l) w k) :
    t.Halts (g.nonterminalName g.start) word ∧ (t.Accepts (g.nonterminalName g.start) word ↔
      ∃ w, g.Generates w ∧ word = w.map g.terminalName) := by
  refine ⟨?_, ?_, ?_⟩
  · intro s hinit
    obtain ⟨w, rfl, hw⟩ := exists_word_of_initial? hg hm hs hp hinit
    obtain ⟨k, b, hk⟩ := Compiled.halts hg hc (w ++ [g.eof]) [.nonterminal g.start, .terminal g.eof]
    exact ⟨k, b, ((hfollows w hw rfl k).run_eq hinit).mpr hk⟩
  · rintro ⟨s, hinit, k, hk⟩
    obtain ⟨w, rfl, hw⟩ := exists_word_of_initial? hg hm hs hp hinit
    exact ⟨w, (Compiled.accepts_iff hg hc w).mp ⟨k, ((hfollows w hw rfl k).run_eq hinit).mp hk⟩, rfl⟩
  · rintro ⟨w, hw, rfl⟩
    exact accepts_of_generates hg hc hm hs hp hw

/-- A packed table that follows its table for good recognises the language. -/
private theorem recognizes_of_follows (hfollows : ∀ w : List Terminal, (∀ x ∈ w, x < g.terminals.length) →
      ∀ k, t.Follows c.table g (.ofNames g l) w k) (word : List String) :
    t.Halts (g.nonterminalName g.start) word ∧ (t.Accepts (g.nonterminalName g.start) word ↔
      ∃ w, g.Generates w ∧ word = w.map g.terminalName) :=
  recognizes_word hg hc hm hs hp fun w hw _ => hfollows w hw

end Simulation

/-- The parser of a packed table follows that of its table as long as only keys are asked for, so it accepts all words
of the language. If no other pair of positions shares a bucket with a key, it follows for good, halts on every word and
accepts exactly the language. -/
theorem follows_table_and_recognizes {d : Draft} (hb : d.build = .ok g) (hc : Compiled.compile g = .ok c)
    (hm : 1 ≤ l.modulus.toNat) (hs : l.shift.toNat < 64) (hp : pack g c.table l = .ok t) :
    ∃ num, Numbering.resolve g l = .ok num ∧
      (∀ w : List Terminal, (∀ x ∈ w, x < g.terminals.length) → ∀ k,
        (initial g.start g.eof w).AsksOnly (· ∈ c.table.keys) (c.table.predictor g) g.eof k →
          t.Follows c.table g num w k) ∧
      (∀ w, g.Generates w → t.Accepts (g.nonterminalName g.start) (w.map g.terminalName)) ∧
      (l.Separates num c.table →
        (∀ w : List Terminal, (∀ x ∈ w, x < g.terminals.length) → ∀ k, t.Follows c.table g num w k) ∧
        ∀ word : List String, t.Halts (g.nonterminalName g.start) word ∧
          (t.Accepts (g.nonterminalName g.start) word ↔ ∃ w, g.Generates w ∧ word = w.map g.terminalName)) := by
  obtain ⟨hlegal, rfl⟩ := Draft.build_eq_ok.mp hb
  have hg := hlegal.wellFormed
  have hm := Layout.modulus_ne_zero hm
  refine ⟨.ofNames d.grammar l, ?_, ?_, fun w hw => accepts_of_generates hg hc hm hs hp hw, fun hsep => ?_⟩
  · exact (Numbering.resolve_eq_ok hg).mpr ⟨fits_of_pack hg hm hs hp, rfl⟩
  · exact fun w hw k hkeys => follows_of_simulates hg hm hs hp (simulates_keys hg hc hm hs hp) hw hkeys
  · have hfollows : ∀ w : List Terminal, (∀ x ∈ w, x < d.grammar.terminals.length) → ∀ k,
        t.Follows c.table d.grammar (.ofNames d.grammar l) w k := fun w hw k =>
      follows_of_simulates hg hm hs hp (simulates_all hg hc hm hs hp hsep) hw (asksOnly_true k _)
    exact ⟨hfollows, recognizes_of_follows hg hc hm hs hp hfollows⟩

end PackedTable

/-- A layout for two optional letters, in other orders than the grammar has. -/
def Layout.optionalPair : Layout where
  terminals := ["$", "b", "a"]
  nonterminals := ["second", "pair", "first"]
  modulus := 11
  shift := 2
  major := .nonterminal
  fingerprint := none

theorem PackedTable.exists_pack_optionalPair :
    ∃ t, PackedTable.pack Draft.optionalPair.grammar Compiled.optionalPair.table Layout.optionalPair = .ok t := by
  have hok : (PackedTable.pack Draft.optionalPair.grammar Compiled.optionalPair.table Layout.optionalPair).isOk :=
    by decide +kernel
  cases h : PackedTable.pack Draft.optionalPair.grammar Compiled.optionalPair.table Layout.optionalPair with
  | ok t => exact ⟨t, rfl⟩
  | error e => simp [h, Except.isOk, Except.toBool] at hok

theorem PackedTable.recognizes_optionalPair : ∃ t,
    PackedTable.pack Draft.optionalPair.grammar Compiled.optionalPair.table Layout.optionalPair = .ok t ∧
    Layout.optionalPair.Separates (.ofNames Draft.optionalPair.grammar Layout.optionalPair)
      Compiled.optionalPair.table ∧
    ∀ word : List String, t.Halts "pair" word ∧ (t.Accepts "pair" word ↔
      ∃ w, Draft.optionalPair.grammar.Generates w ∧ word = w.map Draft.optionalPair.grammar.terminalName) := by
  obtain ⟨t, ht⟩ := PackedTable.exists_pack_optionalPair
  obtain ⟨num, hnum, -, -, hall⟩ := PackedTable.follows_table_and_recognizes Draft.build_optionalPair
    Compiled.compile_optionalPair (by decide) (by decide) ht
  have hresolve : Numbering.resolve Draft.optionalPair.grammar Layout.optionalPair =
      .ok (.ofNames Draft.optionalPair.grammar Layout.optionalPair) := by decide +kernel
  obtain rfl := Except.ok.inj (hnum.symm.trans hresolve)
  have hsep : Layout.optionalPair.Separates (.ofNames Draft.optionalPair.grammar Layout.optionalPair)
      Compiled.optionalPair.table := by
    unfold Layout.Separates
    decide +kernel
  exact ⟨t, ht, hsep, (hall hsep).2⟩

end Predictive
