import FormalMachines.Proofs.Checks
import FormalMachines.Proofs.ContextFree.Exact

/-!
# FormalMachines.Proofs.ContextFree.Rounds

The loop that lowers the costs, sweep by sweep.

`Grammar.attemptSettle` counts down the sweeps that it allows and compares the tables before
and after each.  The loop itself has no bound: it sweeps while a flag says that the last
sweep undercut a cost (`Grammar.Loops`).  Here its runs are lists of rounds, and a round is
the list of the tables that the sweep passes through, production by production.

1. The flag is raised by a sweep if and only if it changes the table (`result_watchSweep`):
   costs only fall, so none that fell comes back (`CostTable.NoGreater.antisymm`).
2. Every table of a run is no greater than the ones before it (`Loops.isChain`).
3. A run has at most one round more than there are non-terminals, since so many sweeps leave
   nothing to lower (`exists_loops`), and it is the only one (`Loops.unique`).

The three together are `attemptCosts_loops`.
-/

namespace FormalMachines.ContextFree

/-! ## Tables that fall -/

namespace CostTable

/-- Whether no cost of a table is greater than in another. -/
def NoGreater (later earlier : CostTable) : Prop :=
  ∀ s, (later.get s).yield ≤ (earlier.get s).yield ∧ (later.get s).steps ≤ (earlier.get s).steps

variable {t u v : CostTable}

theorem NoGreater.refl (t : CostTable) : t.NoGreater t :=
  fun _ => ⟨Cost.le_refl _, Cost.le_refl _⟩

theorem NoGreater.trans (htu : t.NoGreater u) (huv : u.NoGreater v) : t.NoGreater v :=
  fun s => ⟨Cost.le_trans (htu s).1 (huv s).1, Cost.le_trans (htu s).2 (huv s).2⟩

instance : IsTrans CostTable fun earlier later => later.NoGreater earlier :=
  ⟨fun _ _ _ h h' => h'.trans h⟩

/-- Tables of the same entries are equal if neither is greater. -/
theorem NoGreater.antisymm (hnodup : t.keys.Nodup) (hkeys : t.keys = u.keys)
    (htu : t.NoGreater u) (hut : u.NoGreater t) : t = u := by
  refine CostTable.ext hnodup hkeys fun s => ?_
  exact Costs.ext (Cost.le_antisymm (htu s).1 (hut s).1) (Cost.le_antisymm (htu s).2 (hut s).2)

theorem lower_noGreater (t : CostTable) (symbol : Text) (costs : Costs) :
    (t.lower symbol costs).NoGreater t := by
  intro s
  rw [get_lower]
  split
  · exact ⟨Cost.min_le_left _ _, Cost.min_le_left _ _⟩
  · exact ⟨Cost.le_refl _, Cost.le_refl _⟩

/-- Lowering changes a table if and only if one of the two costs is undercut. -/
theorem lower_ne_iff (hnodup : t.keys.Nodup) {symbol : Text} {old costs : Costs}
    (hentry : entryOf t symbol = .ok old) :
    t.lower symbol costs ≠ t ↔ ¬ old.yield ≤ costs.yield ∨ ¬ old.steps ≤ costs.steps := by
  have hlookup : t.lookup symbol = some old := by
    unfold entryOf at hentry
    cases h : t.lookup symbol with
    | none => simp [h] at hentry
    | some c => simpa [h] using hentry
  have hget : t.get symbol = old := by rw [get, hlookup, Option.getD_some]
  have hmem : symbol ∈ t.keys := List.mem_map_of_mem (mem_of_lookup hlookup)
  rw [← not_and_or, not_iff_not]
  constructor
  · intro hsame
    have hmin := get_lower t symbol symbol costs
    rw [hsame, if_pos ⟨rfl, hmem⟩, hget] at hmin
    exact ⟨hmin ▸ Cost.min_le_right _ _, hmin ▸ Cost.min_le_right _ _⟩
  · rintro ⟨hyield, hsteps⟩
    refine (lower_noGreater t symbol costs).antisymm ?_ (keys_lower t symbol costs) fun s => ?_
    · rwa [keys_lower]
    · rw [get_lower]
      split
      · next hs =>
        rw [hs.1, hget, Costs.min, Cost.min, Cost.min, if_pos hyield, if_pos hsteps]
        exact ⟨Cost.le_refl _, Cost.le_refl _⟩
      · exact ⟨Cost.le_refl _, Cost.le_refl _⟩

end CostTable

/-! ## The loop -/

/-- What is seen of a sweep: the tables that it passes through, one for each production, and
the flag and the table at its end. -/
structure Round where
  tables : List CostTable
  result : Except Fault (Bool × CostTable)

namespace Grammar

/-- Lowers the table by one production, and raises the flag if that undercuts a cost. -/
def flagRelax (g : Grammar) (changed : Bool) (table : CostTable) (p : Production) :
    Except Fault (Bool × CostTable) := do
  let costs ← g.addUp table ⟨0, .finite 1⟩ p.symbols
  let old ← entryOf table p.left
  let undercut := ¬ old.yield ≤ costs.yield ∨ ¬ old.steps ≤ costs.steps
  return (changed || undercut, table.lower p.left costs)

/-- Lowers the table by productions in turn. -/
def watchSweep (g : Grammar) : List Production → Bool → CostTable → Round
  | [], changed, table => ⟨[], .ok (changed, table)⟩
  | p :: ps, changed, table =>
    match g.flagRelax changed table p with
    | .error e => ⟨[], .error e⟩
    | .ok (changed, next) =>
      let rest := watchSweep g ps changed next
      ⟨next :: rest.tables, rest.result⟩

/-- A sweep over all productions, with the flag down at its start. -/
def round (g : Grammar) (table : CostTable) : Round := g.watchSweep g.productions false table

/-- The runs of the loop from a table: the tables of each round, and what the run comes to.
It goes on while the flag is up. -/
inductive Loops (g : Grammar) : CostTable → List (List CostTable) → Except Fault CostTable → Prop
  | still {table next : CostTable} (h : (g.round table).result = .ok (false, next)) :
      Loops g table [(g.round table).tables] (.ok next)
  | again {table next : CostTable} {rounds : List (List CostTable)} {r : Except Fault CostTable}
      (h : (g.round table).result = .ok (true, next)) (rest : Loops g next rounds r) :
      Loops g table ((g.round table).tables :: rounds) r
  | failed {table : CostTable} {e : Fault} (h : (g.round table).result = .error e) :
      Loops g table [(g.round table).tables] (.error e)

variable {g : Grammar} {table next : CostTable} {p : Production} {ps : List Production}
  {changed : Bool} {rounds : List (List CostTable)} {r : Except Fault CostTable}

/-- There is one run from a table. -/
theorem Loops.unique (h : g.Loops table rounds r) {rounds' : List (List CostTable)}
    {r' : Except Fault CostTable} (h' : g.Loops table rounds' r') : rounds' = rounds ∧ r' = r := by
  induction h generalizing rounds' r' with
  | still h => cases h' <;> simp_all
  | again h _ ih =>
      cases h' with
      | still h' => simp [h] at h'
      | again h' rest' =>
          rw [h] at h'
          cases h'
          obtain ⟨rfl, rfl⟩ := ih rest'
          exact ⟨rfl, rfl⟩
      | failed h' => simp [h] at h'
  | failed h => cases h' <;> simp_all

/-! ## The flag -/

/-- A production that does not fail lowers the costs of its left side. -/
theorem exists_lower_of_attemptRelax (h : g.attemptRelax table p = .ok next) :
    ∃ costs, next = table.lower p.left costs := by
  obtain ⟨costs, -, h⟩ := bind_eq_ok h
  obtain ⟨old, -, h⟩ := bind_eq_ok h
  exact ⟨costs, (Except.ok.inj h).symm⟩

/-- One production raises the flag if and only if it changes the table. -/
theorem flagRelax_eq (hnodup : table.keys.Nodup) (changed : Bool) (p : Production) :
    g.flagRelax changed table p =
      (g.attemptRelax table p).map fun next => (changed || next ≠ table, next) := by
  unfold flagRelax attemptRelax
  cases g.addUp table ⟨0, .finite 1⟩ p.symbols with
  | error e => rfl
  | ok costs =>
      cases hentry : entryOf table p.left with
      | error e => rfl
      | ok old =>
          change Except.ok (changed || decide _, _) = Except.ok (changed || decide _, _)
          rw [decide_eq_decide.2 (CostTable.lower_ne_iff hnodup hentry)]

/-- The same entries, and no cost that is greater. -/
theorem falls_foldlM_attemptRelax (h : ps.foldlM g.attemptRelax table = .ok next) :
    next.keys = table.keys ∧ next.NoGreater table := by
  induction ps generalizing table with
  | nil =>
      rw [← Except.ok.inj h]
      exact ⟨rfl, .refl table⟩
  | cons p ps ih =>
      rw [List.foldlM_cons] at h
      obtain ⟨first, hfirst, h⟩ := bind_eq_ok h
      obtain ⟨costs, rfl⟩ := exists_lower_of_attemptRelax hfirst
      obtain ⟨hkeys, hle⟩ := ih h
      rw [CostTable.keys_lower] at hkeys
      exact ⟨hkeys, hle.trans (CostTable.lower_noGreater table p.left costs)⟩

/-- **The flag** is up at the end of a sweep if and only if the table is not what it was. -/
theorem result_watchSweep (hnodup : table.keys.Nodup) (ps : List Production) (changed : Bool) :
    (g.watchSweep ps changed table).result =
      (ps.foldlM g.attemptRelax table).map fun next => (changed || next ≠ table, next) := by
  induction ps generalizing table changed with
  | nil =>
      change Except.ok (changed, table) = Except.ok (changed || decide (table ≠ table), table)
      simp
  | cons p ps ih =>
      rw [watchSweep, flagRelax_eq hnodup, List.foldlM_cons]
      cases hfirst : g.attemptRelax table p with
      | error e => rfl
      | ok first =>
          obtain ⟨costs, rfl⟩ := exists_lower_of_attemptRelax hfirst
          have hfirst := CostTable.lower_noGreater table p.left costs
          generalize hlower : table.lower p.left costs = first at hfirst
          have hkeys : first.keys = table.keys := by rw [← hlower, CostTable.keys_lower]
          change (g.watchSweep ps (changed || decide (first ≠ table)) first).result =
            (ps.foldlM g.attemptRelax first).map _
          rw [ih (hkeys ▸ hnodup)]
          cases hrest : ps.foldlM g.attemptRelax first with
          | error e => rfl
          | ok last =>
              obtain ⟨hkeys', hlast⟩ := falls_foldlM_attemptRelax hrest
              -- a table that is left is not come back to, as the costs only fall
              have hback : last = table → first = table := by
                rintro rfl
                exact hfirst.antisymm (hkeys ▸ hnodup) hkeys hlast
              change Except.ok _ = Except.ok _
              by_cases hsame : first = table
              · simp [hsame]
              · simp [hsame, mt hback hsame]

/-- A sweep of the loop is a sweep with the flag that tells whether it changed anything. -/
theorem result_round (hnodup : table.keys.Nodup) :
    (g.round table).result =
      (g.attemptSweep table).map fun next => (decide (next ≠ table), next) :=
  result_watchSweep hnodup g.productions false

/-! ## No cost rises -/

/-- Whether tables fall on from the one that a sweep ends with; none follow a failure. -/
def FallsOn (later : List CostTable) : Except Fault (Bool × CostTable) → Prop
  | .ok (_, next) => (next :: later).IsChain fun earlier t => t.NoGreater earlier
  | .error _ => later = []

/-- The tables of a sweep fall, and those after it do if they fall from its last one. -/
theorem isChain_watchSweep {later : List CostTable}
    (h : FallsOn later (g.watchSweep ps changed table).result) :
    (table :: ((g.watchSweep ps changed table).tables ++ later)).IsChain
      fun earlier t => t.NoGreater earlier := by
  induction ps generalizing table changed with
  | nil => exact h
  | cons p ps ih =>
      rw [watchSweep] at h ⊢
      cases hfirst : g.flagRelax changed table p with
      | error e =>
          simp only [hfirst] at h ⊢
          rw [show later = [] from h]
          exact .singleton table
      | ok first =>
          simp only [hfirst] at h ⊢
          obtain ⟨costs, -, hfirst⟩ := bind_eq_ok hfirst
          obtain ⟨old, -, hfirst⟩ := bind_eq_ok hfirst
          cases hfirst
          exact .cons_cons (CostTable.lower_noGreater table p.left costs) (ih h)

/-- **No cost rises** in a run of the loop, from one table that it passes through to the next. -/
theorem Loops.isChain (h : g.Loops table rounds r) :
    (table :: rounds.flatten).IsChain fun earlier t => t.NoGreater earlier := by
  have hround : ∀ {t later}, FallsOn later (g.round t).result →
      (t :: ((g.round t).tables ++ later)).IsChain fun earlier t => t.NoGreater earlier :=
    isChain_watchSweep
  induction h with
  | still h => exact hround (h ▸ .singleton _)
  | again h _ ih => exact hround (h ▸ ih)
  | failed h => exact hround (h ▸ rfl)

/-! ## The loop ends -/

/-- The loop has a run that ends with what the counted sweeps come to, after one round more
than it takes for the costs to settle. -/
theorem exists_loops (hg : g.Valid) {n bound : Nat} (h : g.Tame table) (hn : n < bound)
    (hstable : g.sweep (g.sweeps table n) = g.sweeps table n) :
    ∃ rounds, g.Loops table rounds (g.attemptSettle bound table) ∧ rounds.length ≤ n + 1 := by
  induction bound generalizing table n with
  | zero => exact absurd hn (Nat.not_lt_zero n)
  | succ bound ih =>
      have hround := result_round (g := g) (h.keys ▸ nodup_keys_initialCosts hg)
      rw [attemptSettle]
      obtain hsweep | ⟨m, -, -, hsweep⟩ := (reckons_attemptSweep hg h (Nat.le_refl _)).eq_ok_or
      case inr =>
        rw [hsweep] at hround ⊢
        exact ⟨_, .failed hround, Nat.le_add_left 1 n⟩
      rw [hsweep] at hround ⊢
      by_cases hsame : g.sweep table = table
      · refine ⟨[(g.round table).tables], ?_, Nat.le_add_left 1 n⟩
        simp only [hsame, bind, Except.bind, if_true]
        refine .still (hround.trans ?_)
        simp [Except.map, hsame]
      · have hagain : (g.round table).result = .ok (true, g.sweep table) := by
          rw [hround]
          simp [Except.map, hsame]
        cases n with
        | zero => exact absurd hstable hsame
        | succ n =>
            rw [← sweeps_sweep] at hstable
            obtain ⟨rounds, hloops, hlength⟩ := ih (h.sweeps 1) (Nat.lt_of_succ_lt_succ hn) hstable
            refine ⟨(g.round table).tables :: rounds, ?_, Nat.succ_le_succ hlength⟩
            simp only [hsame, bind, Except.bind, if_false]
            exact .again hagain hloops

/-- **The loop ends** after at most one sweep more than there are non-terminals, and no cost
ever rises in it: each table that it passes through is no greater than any before.  It has no
other run.  It ends with the costs, or fails in one of these sweeps for a number that is out
of range. -/
theorem attemptCosts_loops (hg : g.Valid) :
    ∃ rounds, g.Loops g.initialCosts rounds g.attemptCosts ∧
      rounds.length ≤ g.nonTerminals.length + 1 ∧
      (g.initialCosts :: rounds.flatten).Pairwise (fun earlier t => t.NoGreater earlier) ∧
      (∀ rounds' r, g.Loops g.initialCosts rounds' r → rounds' = rounds ∧ r = g.attemptCosts) ∧
      (g.attemptCosts = .ok g.costs ∨ ∃ n, Cost.range ≤ n ∧ n ≤ g.ceiling 0 ∧
        g.attemptCosts = .error (.value (.outOfRange n))) := by
  obtain ⟨rounds, hloops, hlength⟩ := exists_loops hg (tame_initialCosts g)
    (Nat.lt_succ_self g.nonTerminals.length) (sweep_sweeps_eq hg (Nat.le_refl _))
  exact ⟨rounds, hloops, hlength, List.isChain_iff_pairwise.1 hloops.isChain,
    fun _ _ h => hloops.unique h, (reckons_attemptCosts hg (g.lowering_le_ceiling 0)).eq_ok_or⟩

/-- Where all numbers are within the range, the rounds are those of the sweeps. -/
theorem result_round_sweeps (hg : g.Valid) (hceiling : g.ceiling 0 < Cost.range) (n : Nat) :
    (g.round (g.sweeps g.initialCosts n)).result =
      .ok (decide (g.sweeps g.initialCosts (n + 1) ≠ g.sweeps g.initialCosts n),
        g.sweeps g.initialCosts (n + 1)) := by
  have htame : g.Tame (g.sweeps g.initialCosts n) := (tame_initialCosts g).sweeps n
  rw [result_round (htame.keys ▸ nodup_keys_initialCosts hg),
    (reckons_attemptSweep hg htame (g.lowering_le_ceiling 0)).eq_ok hceiling]
  rfl

/-- A grammar with a cycle, the productions of which come in the wrong order. -/
def ladder : Grammar where
  terminals := [.text "a"]
  nonTerminals := [.text "S", .text "T", .text "U"]
  productions := [⟨"S", ["T"]⟩, ⟨"T", ["S", "T"]⟩, ⟨"T", ["U"]⟩, ⟨"U", ["a"]⟩]
  start := "S"

/-- Its costs. -/
def ladderCosts : CostTable :=
  [("S", ⟨.finite 1, .finite 3⟩), ("T", ⟨.finite 1, .finite 2⟩), ("U", ⟨.finite 1, .finite 1⟩)]

/-- The loop can take as many sweeps: here each of them but the last lowers the costs of one
non-terminal. -/
theorem attemptCosts_loops_ladder :
    ladder.Valid ∧ ∃ rounds, ladder.Loops ladder.initialCosts rounds ladder.attemptCosts ∧
      rounds.length = ladder.nonTerminals.length + 1 ∧
      (ladder.initialCosts :: rounds.flatten).Pairwise (fun earlier t => t.NoGreater earlier) ∧
      ladder.attemptCosts = .ok ladderCosts := by
  have hg : ladder.Valid := by decide +kernel
  obtain ⟨rounds, hloops, -, hfalls, hunique, -⟩ := attemptCosts_loops hg
  have hround := result_round_sweeps hg (by decide +kernel)
  have hchanged : ∀ n < 3, (ladder.round (ladder.sweeps ladder.initialCosts n)).result =
      .ok (true, ladder.sweeps ladder.initialCosts (n + 1)) := by
    intro n hn
    rw [hround n, show decide _ = true by revert n; decide +kernel]
  have hlast : ladder.sweeps ladder.initialCosts 4 = ladderCosts := by decide +kernel
  have hstill : (ladder.round (ladder.sweeps ladder.initialCosts 3)).result =
      .ok (false, ladder.sweeps ladder.initialCosts 4) := by
    rw [hround 3, show decide _ = false by decide +kernel]
  obtain ⟨rfl, hcosts⟩ := hunique _ _ (.again (hchanged 0 (by decide))
    (.again (hchanged 1 (by decide)) (.again (hchanged 2 (by decide)) (.still hstill))))
  exact ⟨hg, _, hloops, by simp [ladder], hfalls, by rw [← hcosts, hlast]⟩

end Grammar

end FormalMachines.ContextFree
