import Predictive.Proofs.Analysis.First
import Predictive.Proofs.Grammar.Draft

/-!
# Left recursion

The pass behind FIRST refuses a grammar exactly if some nonterminal is a left corner of itself, at any distance. Three
things are shown of it besides what is kept true on the way.

* It comes to an end. The open nonterminals are distinct, so it goes no deeper than there are nonterminals
  (`FirstPass.run?_eq_run`).
* The paths that it reports are cycles of left corners without repetition, from a nonterminal back to itself
  (`FirstSets.exists_path_of_mem_cycles`). A set that is not known in full can only hide that a prefix vanishes, so no
  cycle is made up.
* No two paths have the same members (`FirstPass.pairwise_cycles_run`).
-/

namespace Predictive

/-! ### The pass comes to an end -/

namespace FirstSet

variable {σ τ : Type} {visit : Nonterminal → σ → FirstSet × σ} {visit' : Nonterminal → τ → FirstSet × τ} {f : σ → τ}

/-- Visits that do the same to two forms of a state make evaluations that do the same. -/
theorem sequence_map {symbols : List Symbol}
    (h : ∀ n, .nonterminal n ∈ symbols → ∀ s, visit' n (f s) = ((visit n s).1, f (visit n s).2)) (s : σ) :
    sequence visit' symbols (f s) = ((sequence visit symbols s).1, f (sequence visit symbols s).2) := by
  induction symbols generalizing s with
  | nil => rfl
  | cons x symbols ih =>
    cases x with
    | terminal t => rfl
    | nonterminal n =>
      have ih' := ih (fun m hm => h m (List.mem_cons_of_mem _ hm)) (visit n s).2
      simp only [sequence, h n List.mem_cons_self s, ih']
      by_cases hn : (visit n s).1.nullable = true
      · simp only [if_pos hn]
      · simp only [if_neg hn]

theorem choices_map {rhss : List (List Symbol)}
    (h : ∀ rhs ∈ rhss, ∀ n, .nonterminal n ∈ rhs → ∀ s, visit' n (f s) = ((visit n s).1, f (visit n s).2)) (s : σ) :
    choices visit' rhss (f s) = ((choices visit rhss s).1, f (choices visit rhss s).2) := by
  induction rhss generalizing s with
  | nil => rfl
  | cons rhs rest ih =>
    have hrhs := sequence_map (h rhs List.mem_cons_self) s
    have ih' := ih (fun r hr => h r (List.mem_cons_of_mem rhs hr)) (sequence visit rhs s).2
    simp only [choices, hrhs, ih']

end FirstSet

namespace FirstPass

variable {g : Grammar}

/-- A visit that loses the state where it would go deeper than `depth`. -/
def visit? (g : Grammar) : (depth : Nat) → (stack : List Nonterminal) → Nonterminal → Option FirstPass →
    FirstSet × Option FirstPass
  | 0, _, _, _ => ({}, none)
  | _ + 1, _, _, none => ({}, none)
  | depth + 1, stack, n, some s =>
    match s.done.lookup n with
    | some f => (f, some s)
    | none =>
      if n ∈ stack then ({}, some (s.record (cycleAt stack n)))
      else
        let (f, s) := FirstSet.choices (visit? g depth (n :: stack)) ((g.productionsOf n).map (·.2.rhs)) (some s)
        (f, s.map fun s => { s with done := (n, f) :: s.done })

/-- The pass over all nonterminals, unless it would go deeper than `depth` somewhere. -/
def run? (g : Grammar) (depth : Nat) : Option FirstPass :=
  g.nonterminalIds.foldl (fun s n => (visit? g depth [] n s).2) (some {})

private theorem visit?_eq_visit (hg : g.WellFormed) {depth fuel : Nat} {stack : List Nonterminal} {n : Nonterminal}
    {s : FirstPass} (hdepth : g.nonterminals.length < depth + stack.length)
    (hfuel : g.nonterminals.length < fuel + stack.length) (hnd : stack.Nodup)
    (hlt : ∀ m ∈ stack, m < g.nonterminals.length) (hn : n < g.nonterminals.length) :
    visit? g depth stack n (some s) = ((visit g fuel stack n s).1, some (visit g fuel stack n s).2) := by
  have hopen := length_le_of_open hnd hlt
  induction depth generalizing fuel stack n s with
  | zero => omega
  | succ depth ih =>
    cases fuel with
    | zero => omega
    | succ fuel =>
      unfold visit? visit
      cases hdone : s.done.lookup n with
      | some f => rfl
      | none =>
        by_cases hmem : n ∈ stack
        · simp only [if_pos hmem]
        · -- one more nonterminal is open, so one step less suffices
          have hnd' : (n :: stack).Nodup := List.nodup_cons.mpr ⟨hmem, hnd⟩
          have hlt' : ∀ m ∈ n :: stack, m < g.nonterminals.length := List.forall_mem_cons.mpr ⟨hn, hlt⟩
          have hopen' := length_le_of_open hnd' hlt'
          have hinner : ∀ rhs ∈ (g.productionsOf n).map (·.2.rhs), ∀ m, .nonterminal m ∈ rhs → ∀ s,
              visit? g depth (n :: stack) m (some s) =
                ((visit g fuel (n :: stack) m s).1, some (visit g fuel (n :: stack) m s).2) := by
            intro rhs hrhs m hm s
            obtain ⟨p, hp, -, rfl⟩ := mem_rhss.mp hrhs
            rw [List.length_cons] at hopen'
            refine ih ?_ ?_ hnd' hlt' (hg.nonterminal_lt p hp m hm) (by simpa using hopen')
            · rw [List.length_cons]
              omega
            · rw [List.length_cons]
              omega
          simp only [if_neg hmem, FirstSet.choices_map hinner, Option.map_some]

/-- The pass comes to its end: it never goes deeper than there are nonterminals. -/
theorem run?_eq_run (hg : g.WellFormed) {depth : Nat} (hdepth : g.nonterminals.length < depth) :
    run? g depth = some (run g) := by
  have hfold : ∀ (l : List Nonterminal) (s : FirstPass), (∀ n ∈ l, n < g.nonterminals.length) →
      l.foldl (fun s n => (visit? g depth [] n s).2) (some s) =
        some (l.foldl (fun s n => (visit g (g.nonterminals.length + 1) [] n s).2) s) := by
    intro l
    induction l with
    | nil => intro s _; rfl
    | cons n l ih =>
      intro s hl
      have hn : n < g.nonterminals.length := hl n List.mem_cons_self
      rw [List.foldl_cons, List.foldl_cons,
        visit?_eq_visit hg hdepth (Nat.lt_succ_self _) List.nodup_nil (List.forall_mem_nil _) hn]
      exact ih _ fun m hm => hl m (List.mem_cons_of_mem n hm)
  exact hfold g.nonterminalIds {} fun n hn => List.mem_range.mp hn

/-! ### No two recorded cycles have the same members -/

theorem sameMembers_iff {a b : List Nonterminal} : sameMembers a b = true ↔ ∀ n, n ∈ a ↔ n ∈ b := by
  simp only [sameMembers, Bool.and_eq_true, List.all_eq_true, decide_eq_true_eq]
  constructor
  · rintro ⟨hab, hba⟩ n
    exact ⟨hab n, hba n⟩
  · intro h
    exact ⟨fun n => (h n).mp, fun n => (h n).mpr⟩

private theorem pairwise_record (s : FirstPass) (cycle : List Nonterminal)
    (h : s.cycles.Pairwise fun a b => ¬ ∀ n, n ∈ a ↔ n ∈ b) : (s.record cycle).cycles.Pairwise fun a b => ¬ ∀ n, n ∈ a ↔ n ∈ b := by
  unfold record
  by_cases hknown : s.cycles.any (sameMembers cycle) = true
  · rw [if_pos hknown]
    exact h
  · rw [if_neg hknown]
    refine List.pairwise_append.mpr ⟨h, List.pairwise_singleton _ _, ?_⟩
    intro a ha b hb hsame
    obtain rfl := List.mem_singleton.mp hb
    exact hknown (List.any_eq_true.mpr ⟨a, ha, sameMembers_iff.mpr fun n => (hsame n).symm⟩)

theorem pairwise_cycles_run (g : Grammar) : (run g).cycles.Pairwise fun a b => ¬ ∀ n, n ∈ a ↔ n ∈ b := by
  have hfold : ∀ (l : List Nonterminal) (s : FirstPass), (s.cycles.Pairwise fun a b => ¬ ∀ n, n ∈ a ↔ n ∈ b) →
      (l.foldl (fun s n => (visit g (g.nonterminals.length + 1) [] n s).2) s).cycles.Pairwise
        fun a b => ¬ ∀ n, n ∈ a ↔ n ∈ b := by
    intro l
    induction l with
    | nil => exact fun s h => h
    | cons n l ih =>
      intro s h
      exact ih _ (visit_keeps_cycles (·.Pairwise fun a b => ¬ ∀ n, n ∈ a ↔ n ∈ b) pairwise_record h)
  exact hfold g.nonterminalIds {} .nil

end FirstPass

/-! ### What is reported -/

namespace FirstSets

open FirstPass

variable {g : Grammar} {cycle : List Nonterminal}

theorem compute_eq_error {issues : List Issue} : compute g = .error issues ↔
    (run g).cycles ≠ [] ∧ issues = (run g).cycles.map fun c => .leftRecursion (cyclePath g c) := by
  simp only [compute]
  by_cases h : (run g).cycles = []
  · simp [h]
  · simp [h, eq_comm]

/-- Every member of a cycle has one that comes next. -/
theorem exists_next_of_mem {n : Nonterminal} (hn : n ∈ cycle) :
    ∃ b ∈ cycle, [n, b] <:+: cycle ++ cycle.take 1 := by
  obtain ⟨front, back, rfl⟩ := List.append_of_mem hn
  cases hrest : back ++ (front ++ n :: back).take 1 with
  | nil => cases front <;> simp at hrest
  | cons b rest =>
    have hb : b ∈ back ++ (front ++ n :: back).take 1 := hrest ▸ List.mem_cons_self
    refine ⟨b, ?_, front, rest, ?_⟩
    · rcases List.mem_append.mp hb with hb | hb
      · simp [hb]
      · exact List.mem_of_mem_take hb
    · simp only [List.append_assoc, List.cons_append, List.nil_append, hrest]

/-- Every member of a cycle has a left corner, so it is a nonterminal of the grammar. -/
private theorem lt_of_mem_cycle (hg : g.WellFormed) (hc : g.IsCycle cycle) {n : Nonterminal} (hn : n ∈ cycle) :
    n < g.nonterminals.length := by
  obtain ⟨b, -, hnext⟩ := exists_next_of_mem hn
  obtain ⟨p, hp, u, v, rfl, -, -⟩ := List.isChain_pair.mp <| List.IsChain.infix hc.corners hnext
  exact hg.lhs_lt p hp

private theorem nonterminalName_inj (hg : g.WellFormed) {m n : Nonterminal} (hm : m < g.nonterminals.length)
    (hn : n < g.nonterminals.length) (h : g.nonterminalName m = g.nonterminalName n) : m = n :=
  getD_inj hg.nonterminals_nodup hm hn h

/-- A path names the members of its cycle and nothing else. -/
theorem mem_cyclePath_iff {name : String} : name ∈ cyclePath g cycle ↔ ∃ n ∈ cycle, g.nonterminalName n = name := by
  have hmem : ∀ m, m ∈ cycle ++ cycle.take 1 ↔ m ∈ cycle := by
    intro m
    rw [List.mem_append]
    exact ⟨fun h => h.elim id fun h => List.mem_of_mem_take h, Or.inl⟩
  simp only [cyclePath, List.mem_map, hmem]

private theorem mem_cyclePath (hg : g.WellFormed) (hc : g.IsCycle cycle) {n : Nonterminal}
    (hn : n < g.nonterminals.length) : g.nonterminalName n ∈ cyclePath g cycle ↔ n ∈ cycle := by
  rw [mem_cyclePath_iff]
  constructor
  · rintro ⟨m, hm, hname⟩
    exact nonterminalName_inj hg (lt_of_mem_cycle hg hc hm) hn hname ▸ hm
  · intro hmem
    exact ⟨n, hmem, rfl⟩

/-- What is recorded is reported as a path of left corners from a nonterminal back to itself, with no name twice on the
way. -/
theorem exists_path_of_mem_cycles (hg : g.WellFormed) (hc : cycle ∈ (run g).cycles) :
    ∃ a rest, cyclePath g cycle = (a :: rest ++ [a]).map g.nonterminalName ∧
      ((a :: rest).map g.nonterminalName).Nodup ∧ (a :: rest ++ [a]).IsChain g.LeftCorner := by
  have hcycle := (sound_run g).cycles cycle hc
  obtain ⟨hne, hnodup, hcorners⟩ := id hcycle
  cases cycle with
  | nil => exact absurd rfl hne
  | cons a rest =>
    refine ⟨a, rest, rfl, ?_, hcorners⟩
    refine hnodup.map_on fun m hm n hn hname => ?_
    exact nonterminalName_inj hg (lt_of_mem_cycle hg hcycle hm) (lt_of_mem_cycle hg hcycle hn) hname

private theorem cyclePath_members {a b : List Nonterminal} (hg : g.WellFormed) (ha : g.IsCycle a) (hb : g.IsCycle b)
    (h : ¬ ∀ n, n ∈ a ↔ n ∈ b) : ¬ ∀ name, name ∈ cyclePath g a ↔ name ∈ cyclePath g b := by
  intro hnames
  refine h fun n => ?_
  constructor
  · intro hn
    have hlt := lt_of_mem_cycle hg ha hn
    exact (mem_cyclePath hg hb hlt).mp ((hnames _).mp ((mem_cyclePath hg ha hlt).mpr hn))
  · intro hn
    have hlt := lt_of_mem_cycle hg hb hn
    exact (mem_cyclePath hg ha hlt).mp ((hnames _).mpr ((mem_cyclePath hg hb hlt).mpr hn))

/-- The pass comes to an end, and it refuses the grammars in which a nonterminal is a left corner of itself at some
distance, and no others. Each issue then is a path of left corners from a nonterminal back to itself that meets no
nonterminal twice on the way, and no two issues have the same members. -/
theorem refuses_left_recursion {d : Draft} {g : Grammar} (hb : d.build = .ok g) :
    (∀ depth, g.nonterminals.length < depth → run? g depth = some (run g)) ∧
    ((∃ issues, compute g = .error issues) ↔ ∃ n, Relation.TransGen g.LeftCorner n n) ∧
    ∀ issues, compute g = .error issues →
      (∀ issue ∈ issues, ∃ a rest, issue = .leftRecursion ((a :: rest ++ [a]).map g.nonterminalName) ∧
        ((a :: rest).map g.nonterminalName).Nodup ∧ (a :: rest ++ [a]).IsChain g.LeftCorner) ∧
      issues.Pairwise fun i j => ∀ p q, i = .leftRecursion p → j = .leftRecursion q →
        ¬ ∀ name, name ∈ p ↔ name ∈ q := by
  obtain ⟨hlegal, rfl⟩ := Draft.build_eq_ok.mp hb
  have hg := hlegal.wellFormed
  refine ⟨fun depth hdepth => run?_eq_run hg hdepth, ?_, ?_⟩
  · have hok := isOk_compute hg
    cases hcompute : compute d.grammar with
    | ok first =>
      have hnot := hok.mp ⟨first, hcompute⟩
      exact ⟨fun h => by simp at h, fun h => absurd h hnot⟩
    | error issues =>
      have hrec : d.grammar.LeftRecursive := Classical.byContradiction fun hnot => by
        obtain ⟨first, hfirst⟩ := hok.mpr hnot
        simp [hcompute] at hfirst
      exact ⟨fun _ => hrec, fun _ => ⟨issues, rfl⟩⟩
  · intro issues hcompute
    obtain ⟨-, rfl⟩ := compute_eq_error.mp hcompute
    constructor
    · intro issue hissue
      obtain ⟨cycle, hc, rfl⟩ := List.mem_map.mp hissue
      obtain ⟨a, rest, hpath, hnodup, hchain⟩ := exists_path_of_mem_cycles hg hc
      exact ⟨a, rest, congrArg Issue.leftRecursion hpath, hnodup, hchain⟩
    · rw [List.pairwise_map]
      refine (pairwise_cycles_run d.grammar).imp_of_mem ?_
      rintro a b ha hb hmembers p q hp hq
      obtain rfl := Issue.leftRecursion.inj hp
      obtain rfl := Issue.leftRecursion.inj hq
      exact cyclePath_members hg ((sound_run _).cycles a ha) ((sound_run _).cycles b hb) hmembers

end FirstSets

/-! ### Recursion behind what vanishes -/

/-- Signs may be left out, so that a sum can begin with a sum, and a term with a group that begins with a term. -/
def Draft.hiddenRecursion : Draft where
  start := "sum"
  terminals := ["-", "+", "n"]
  rules := [("sum", ["sign", "sum", "+", "term"]), ("sum", ["term"]), ("sign", ["-"]), ("sign", []),
    ("term", ["n"]), ("term", ["sign", "group", "n"]), ("group", ["sign", "term"])]

theorem FirstSets.refuses_hiddenRecursion :
    FirstSets.compute Draft.hiddenRecursion.grammar =
        .error [.leftRecursion ["sum", "sum"], .leftRecursion ["term", "group", "term"]] ∧
      (∃ n, Relation.TransGen Draft.hiddenRecursion.grammar.LeftCorner n n) ∧
      ∃ a rest, ["term", "group", "term"] = (a :: rest ++ [a]).map Draft.hiddenRecursion.grammar.nonterminalName ∧
        (a :: rest ++ [a]).IsChain Draft.hiddenRecursion.grammar.LeftCorner := by
  have hb : Draft.hiddenRecursion.build = .ok Draft.hiddenRecursion.grammar := by decide +kernel
  have herror : FirstSets.compute Draft.hiddenRecursion.grammar =
      .error [.leftRecursion ["sum", "sum"], .leftRecursion ["term", "group", "term"]] := by decide +kernel
  obtain ⟨-, hiff, hissues⟩ := refuses_left_recursion hb
  obtain ⟨a, rest, hpath, -, hchain⟩ := (hissues _ herror).1 (.leftRecursion ["term", "group", "term"]) (by simp)
  exact ⟨herror, hiff.mp ⟨_, herror⟩, a, rest, Issue.leftRecursion.inj hpath, hchain⟩

end Predictive
