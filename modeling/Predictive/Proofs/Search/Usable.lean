import Predictive.Proofs.Layout.RoundTrip
import Predictive.Proofs.Packed.Identifier
import Predictive.Proofs.Packed.Lookup
import Predictive.Proofs.Search.Trial
import Predictive.Search.Run

/-!
# Layouts of trials

The layout of a trial lists the symbols in the orders of the trial, so that the positions found through names are those
that the trial worked with (`Orders.ofNames_layout`). It follows that all checks accept the layout: it is read back
from its text, belongs to the grammar, gives every key a bucket, and can be packed unless a symbol has no name
(`Problem.usable_layout`).
-/

namespace Predictive

variable {g : Grammar} {table : Table}

/-! ### Checks -/

/-- Whether the symbols of a grammar have names that can be emitted. -/
def Grammar.Nameable (g : Grammar) : Prop := Predictive.Nameable g.terminals ∧ Predictive.Nameable g.nonterminals

/-- A layout that needs nothing but itself to be used with a grammar and its table. -/
structure Layout.Usable (g : Grammar) (table : Table) (l : Layout) : Prop where
  size_le : max 1 table.size ≤ l.modulus.toNat
  readBack : Layout.ofJson (Text.utf8 l.toJson) = .ok l
  fingerprint : l.checkFingerprint g = .ok ()
  verified : l.verify g table = .ok ()
  resumed : SearchState.resumeChecked g table l = .ok (SearchState.resume l)
  packed : ∀ e, PackedTable.pack g table l = .error e → e.Naming
  packed_iff : (∃ t, PackedTable.pack g table l = .ok t) ↔ g.Nameable

section Checks

variable {l : Layout} (hg : g.WellFormed) (hm : l.modulus ≠ 0) (hs : l.shift.toNat < 64) (hfits : l.Fits g)
  (hkeys : (table.keys.map (l.keyBucket (.ofNames g l))).Nodup)

include hg hm hs hfits hkeys

private theorem verify_of_nodup : l.verify g table = .ok () := by
  have hresolve := (Numbering.resolve_eq_ok hg).mpr ⟨hfits, rfl⟩
  have hbuckets := (Layout.buckets_eq_ok (g := g) hm hs).mpr ⟨rfl, hkeys⟩
  simp [Layout.verify, hm, hresolve, hbuckets, bind, Except.bind, pure, Except.pure]

/-- Only the names of symbols decide whether a layout can be packed. -/
private theorem pack_eq_map (hf : l.checkFingerprint g = .ok ()) :
    PackedTable.pack g table l = (SymbolNames.ofLayout l).map (PackedTable.laidOut g table l) := by
  cases hsymbols : SymbolNames.ofLayout l with
  | ok symbols => exact (PackedTable.pack_eq_ok hg hm hs).mpr ⟨hf, hfits, hkeys, symbols, hsymbols, rfl⟩
  | error e =>
    have hresolve := (Numbering.resolve_eq_ok hg).mpr ⟨hfits, rfl⟩
    simp [PackedTable.pack, hf, hresolve, hsymbols, bind, Except.bind, Except.map]

/-- A layout that belongs to the grammar and keeps keys apart is usable. -/
theorem Layout.usable_of_nodup (hf : l.checkFingerprint g = .ok ()) (hsize : max 1 table.size ≤ l.modulus.toNat)
    (hnarrow : l.shift.toNat < 32) : l.Usable g table where
  size_le := hsize
  readBack := Layout.ofJson_toJson hm hnarrow
  fingerprint := hf
  verified := verify_of_nodup hg hm hs hfits hkeys
  resumed := by
    simp [SearchState.resumeChecked, hf, verify_of_nodup hg hm hs hfits hkeys, bind, Except.bind, pure, Except.pure]
  packed := by
    intro e he
    rw [pack_eq_map hg hm hs hfits hkeys hf] at he
    cases hsymbols : SymbolNames.ofLayout l with
    | ok symbols => simp [hsymbols, Except.map] at he
    | error e' =>
      obtain rfl : e' = e := by simpa [hsymbols, Except.map] using he
      exact SymbolNames.naming_of_error hsymbols
  packed_iff := by
    rw [Grammar.Nameable, ← nameable_perm hfits.terminals, ← nameable_perm hfits.nonterminals,
      ← SymbolNames.exists_ofLayout]
    simp only [pack_eq_map hg hm hs hfits hkeys hf, map_eq_ok]
    exact ⟨fun ⟨_, symbols, hsymbols, _⟩ => ⟨symbols, hsymbols⟩, fun ⟨symbols, hsymbols⟩ => ⟨_, symbols, hsymbols, rfl⟩⟩

end Checks

/-! ### Orders -/

/-- The orders have each symbol of the grammar once. -/
structure Orders.Permute (o : Orders) (g : Grammar) : Prop where
  terminals : o.terminals.Perm g.terminalIds
  nonterminals : o.nonterminals.Perm g.nonterminalIds

/-- Names in an order have the positions that the order gives. -/
private theorem map_idxOf_order {names : List String} (hn : names.Nodup) {order : List Nat}
    (h : order.Perm (List.range names.length)) :
    names.map (order.map fun i => names.getD i "").idxOf = Numbering.positions order := by
  have hlength : order.length = names.length := by simpa using h.length_eq
  refine List.ext_getElem (by simp [Numbering.positions, hlength]) fun i hi hj => ?_
  have hlt : i < names.length := by simpa using hi
  have hkeep := idxOf_map (fun i => names.getD i "") (l := order) (a := i) fun j hj heq => by
    have hjlt : j < names.length := by simpa using h.mem_iff.mp hj
    exact getD_inj hn hjlt hlt heq
  simpa [Numbering.positions, hlt] using hkeep

namespace Orders.Permute

variable {o : Orders} (hg : g.WellFormed) (ho : o.Permute g) (p : Problem) (hp : p.grammar = g) (h : Hit)

include ho hp

theorem fits_layout : (p.layout o h).Fits g := by
  subst hp
  constructor
  · have hperm := ho.terminals.map p.grammar.terminalName
    rwa [show p.grammar.terminalIds.map p.grammar.terminalName = p.grammar.terminals from
      map_getD_range p.grammar.terminals ""] at hperm
  · have hperm := ho.nonterminals.map p.grammar.nonterminalName
    rwa [show p.grammar.nonterminalIds.map p.grammar.nonterminalName = p.grammar.nonterminals from
      map_getD_range p.grammar.nonterminals ""] at hperm

include hg

/-- The positions of names in the layout are those that the trial worked with. -/
theorem ofNames_layout :
    Numbering.ofNames g (p.layout o h) = Numbering.ofOrders o.terminals o.nonterminals := by
  subst hp
  have ht := map_idxOf_order hg.terminals_nodup ho.terminals
  have hn := map_idxOf_order hg.nonterminals_nodup ho.nonterminals
  rw [Numbering.ofNames, Numbering.ofOrders, ← ht, ← hn]
  rfl

end Orders.Permute

theorem Hit.Good.toNat_modulus {num : Numbering} {shift : Nat} {h : Hit} (hh : h.Good table num shift) (p : Problem)
    (o : Orders) : (p.layout o h).modulus.toNat = h.modulus := by
  simp [Problem.layout, Nat.mod_eq_of_lt hh.lt_size]

/-- The layout of a good modulus is usable. -/
theorem Problem.usable_layout (hg : g.WellFormed) {shift : UInt32} (hs : shift.toNat < 32) {o : Orders}
    (ho : o.Permute g) {h : Hit} (hh : h.Good table (.ofOrders o.terminals o.nonterminals) shift.toNat) :
    ((Problem.of g table shift).layout o h).Usable g table := by
  have hmodulus := hh.toNat_modulus (Problem.of g table shift) o
  have hle := hh.size_le
  have hm : ((Problem.of g table shift).layout o h).modulus ≠ 0 := by
    apply Layout.modulus_ne_zero
    rw [hmodulus]
    omega
  have hkeys : (table.keys.map (((Problem.of g table shift).layout o h).keyBucket
      (.ofNames g ((Problem.of g table shift).layout o h)))).Nodup := by
    rw [ho.ofNames_layout hg (Problem.of g table shift) rfl h]
    refine (congrArg List.Nodup (List.map_congr_left fun key _ => ?_)).mp hh.nodup
    rw [Layout.keyBucket, Layout.bucket, hmodulus]
    rfl
  have hf : ((Problem.of g table shift).layout o h).checkFingerprint g = .ok () := by
    simp [Layout.checkFingerprint, layout, Problem.of]
  have hwide : ((Problem.of g table shift).layout o h).shift.toNat < 64 := Nat.lt_trans hs (by decide)
  exact Layout.usable_of_nodup hg hm hwide (ho.fits_layout _ rfl h) hkeys hf (hmodulus.symm ▸ hle) hs

end Predictive
