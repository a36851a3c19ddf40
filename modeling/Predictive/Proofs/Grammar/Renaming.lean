import Predictive.Proofs.Analysis.Follow

/-!
# Renaming symbols

A renaming that takes the productions of one grammar to those of another takes derivations along
(`Renaming.Into.derives`), and with them everything that is said in terms of derivations: what vanishes, what a
sequence begins with, left corners and FOLLOW.

Two grammars are twins if renamings lead from each to the other, undo each other and keep names and the order of
alternatives (`Twins`). For twins these statements are equivalent.
-/

namespace Predictive.Grammar

/-- Other numbers for symbols. -/
structure Renaming where
  terminal : Terminal → Terminal
  nonterminal : Nonterminal → Nonterminal

namespace Renaming

variable (r : Renaming)

def symbol : Symbol → Symbol
  | .terminal t => .terminal (r.terminal t)
  | .nonterminal n => .nonterminal (r.nonterminal n)

def production (p : Production) : Production := ⟨r.nonterminal p.lhs, p.rhs.map r.symbol⟩

private theorem rhs_production {p : Production} {u v : List Symbol} {n : Nonterminal}
    (hr : p.rhs = u ++ .nonterminal n :: v) :
    (r.production p).rhs = u.map r.symbol ++ .nonterminal (r.nonterminal n) :: v.map r.symbol := by
  simp [production, hr, symbol]

/-- The renaming takes start symbol, end marker and productions of one grammar to those of the other. -/
structure Into (g g' : Grammar) : Prop where
  start : r.nonterminal g.start = g'.start
  eof : r.terminal g.eof = g'.eof
  mem_productions : ∀ p ∈ g.productions, r.production p ∈ g'.productions

/-! ### Derivations along a renaming -/

namespace Into

variable {r} {g g' : Grammar} (h : r.Into g g')

include h

private theorem step {u v : List Symbol} (hs : g.Step u v) : g'.Step (u.map r.symbol) (v.map r.symbol) := by
  cases hs with
  | replace a b p hp =>
    have hstep := Step.replace (a.map r.symbol) (b.map r.symbol) (r.production p) (h.mem_productions p hp)
    simpa [production, symbol] using hstep

theorem derives {u v : List Symbol} (hd : g.Derives u v) : g'.Derives (u.map r.symbol) (v.map r.symbol) := by
  induction hd with
  | refl => exact .refl _
  | tail _ hs ih => exact .tail ih (h.step hs)

theorem vanishes {u : List Symbol} (hv : g.Vanishes u) : g'.Vanishes (u.map r.symbol) := h.derives hv

theorem beginsWith {u : List Symbol} {t : Terminal} (hb : g.BeginsWith u t) :
    g'.BeginsWith (u.map r.symbol) (r.terminal t) := by
  obtain ⟨v, hv⟩ := hb
  exact ⟨v.map r.symbol, h.derives hv⟩

theorem leftCorner {a b : Nonterminal} (hc : g.LeftCorner a b) :
    g'.LeftCorner (r.nonterminal a) (r.nonterminal b) := by
  obtain ⟨p, hp, u, v, rfl, hr, hu⟩ := hc
  exact ⟨r.production p, h.mem_productions p hp, u.map r.symbol, v.map r.symbol, rfl, r.rhs_production hr, h.vanishes hu⟩

theorem leftRecursive (hl : g.LeftRecursive) : g'.LeftRecursive := by
  obtain ⟨n, hn⟩ := hl
  have hall : ∀ m, Relation.TransGen g.LeftCorner n m →
      Relation.TransGen g'.LeftCorner (r.nonterminal n) (r.nonterminal m) := by
    intro m hm
    induction hm with
    | single hc => exact .single (h.leftCorner hc)
    | tail _ hc ih => exact .tail ih (h.leftCorner hc)
  exact ⟨r.nonterminal n, hall n hn⟩

theorem follows {n : Nonterminal} {t : Terminal} (hf : g.Follows n t) :
    g'.Follows (r.nonterminal n) (r.terminal t) := by
  induction hf with
  | start =>
    rw [h.start, h.eof]
    exact .start
  | next hp hr ht => exact .next (h.mem_productions _ hp) (r.rhs_production hr) (h.beginsWith ht)
  | inherit hp hr hv _ ih => exact .inherit (h.mem_productions _ hp) (r.rhs_production hr) (h.vanishes hv) ih

end Into

end Renaming

/-! ### Twins -/

/-- The renaming keeps symbols of the grammar in range and keeps their names, and the other one undoes it. -/
structure Renaming.Tracks (r r' : Renaming) (g g' : Grammar) : Prop where
  terminal_lt : ∀ t < g.terminals.length, r.terminal t < g'.terminals.length
  terminal_name : ∀ t < g.terminals.length, g'.terminalName (r.terminal t) = g.terminalName t
  terminal_back : ∀ t < g.terminals.length, r'.terminal (r.terminal t) = t
  nonterminal_lt : ∀ n < g.nonterminals.length, r.nonterminal n < g'.nonterminals.length
  nonterminal_name : ∀ n < g.nonterminals.length, g'.nonterminalName (r.nonterminal n) = g.nonterminalName n
  nonterminal_back : ∀ n < g.nonterminals.length, r'.nonterminal (r.nonterminal n) = n
  alternatives : ∀ n < g.nonterminals.length,
    (g'.productionsOf (r.nonterminal n)).map Prod.snd = ((g.productionsOf n).map Prod.snd).map r.production

/-- Grammars that differ in the numbers of their symbols only. -/
structure Twins (r r' : Renaming) (g g' : Grammar) : Prop where
  into : r.Into g g'
  back : r'.Into g' g
  tracks : r.Tracks r' g g'
  tracksBack : r'.Tracks r g' g

namespace Twins

variable {r r' : Renaming} {g g' : Grammar} (h : Twins r r' g g')

include h

theorem symm : Twins r' r g' g := ⟨h.back, h.into, h.tracksBack, h.tracks⟩

theorem map_back {u : List Symbol} (hu : ∀ x ∈ u, g.InRange x) : (u.map r.symbol).map r'.symbol = u := by
  rw [List.map_map]
  refine (List.map_congr_left fun x hx => ?_).trans (List.map_id' u)
  cases x with
  | terminal t => exact congrArg Symbol.terminal (h.tracks.terminal_back t (hu _ hx))
  | nonterminal n => exact congrArg Symbol.nonterminal (h.tracks.nonterminal_back n (hu _ hx))

theorem map_name {u : List Symbol} (hu : ∀ x ∈ u, g.InRange x) :
    (u.map r.symbol).map g'.symbolName = u.map g.symbolName := by
  rw [List.map_map]
  refine List.map_congr_left fun x hx => ?_
  cases x with
  | terminal t => exact h.tracks.terminal_name t (hu _ hx)
  | nonterminal n => exact h.tracks.nonterminal_name n (hu _ hx)

theorem vanishes_iff {u : List Symbol} (hu : ∀ x ∈ u, g.InRange x) :
    g'.Vanishes (u.map r.symbol) ↔ g.Vanishes u := by
  refine ⟨fun hv => ?_, h.into.vanishes⟩
  have hback := h.back.vanishes hv
  rwa [h.map_back hu] at hback

theorem beginsWith_iff {u : List Symbol} (hu : ∀ x ∈ u, g.InRange x) {t : Terminal} (ht : t < g.terminals.length) :
    g'.BeginsWith (u.map r.symbol) (r.terminal t) ↔ g.BeginsWith u t := by
  refine ⟨fun hb => ?_, h.into.beginsWith⟩
  have hback := h.back.beginsWith hb
  rwa [h.map_back hu, h.tracks.terminal_back t ht] at hback

theorem follows_iff {n : Nonterminal} (hn : n < g.nonterminals.length) {t : Terminal} (ht : t < g.terminals.length) :
    g'.Follows (r.nonterminal n) (r.terminal t) ↔ g.Follows n t := by
  refine ⟨fun hf => ?_, h.into.follows⟩
  have hback := h.back.follows hf
  rwa [h.tracks.nonterminal_back n hn, h.tracks.terminal_back t ht] at hback

end Twins

end Predictive.Grammar
