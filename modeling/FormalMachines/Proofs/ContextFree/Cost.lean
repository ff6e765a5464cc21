import FormalMachines.ContextFree.Cost
import Mathlib.Data.List.Nodup
import Mathlib.Data.List.Perm.Subperm
import Mathlib.Tactic.ByContra

/-!
# FormalMachines.Proofs.ContextFree.Cost

The costs of the non-terminals settle.

The two costs behave alike, so what is proved of one *component* of a pair of costs is
proved of both (`Component`).  A sweep lowers costs and never raises them
(`sweep_le`), and after it no production of a declared non-terminal undercuts its left
side with the costs from before (`sweep_left_le`).

The main statement is that so many sweeps as there are non-terminals are enough
(`not_falls`).  A cost that falls in one sweep does so because a cost no greater fell in
the sweep before (`exists_falls_before`).  The non-terminals of such a chain are distinct:
one that came twice would have fallen below what it already was.
-/

namespace FormalMachines.ContextFree

/-! ## The order of costs -/

namespace Cost

@[simp] theorem le_refl (c : Cost) : c ≤ c := by
  cases c with
  | finite n => exact Nat.le_refl n
  | infinite => trivial

theorem le_trans {b c d : Cost} (hbc : b ≤ c) (hcd : c ≤ d) : b ≤ d := by
  cases b <;> cases c <;> cases d <;> simp_all
  omega

theorem le_total (c d : Cost) : c ≤ d ∨ d ≤ c := by
  cases c <;> cases d <;> simp
  omega

theorem add_le_add {b c b' c' : Cost} (hb : b ≤ b') (hc : c ≤ c') : b + c ≤ b' + c' := by
  cases b <;> cases c <;> cases b' <;> cases c' <;> simp_all
  omega

theorem le_add_right (c d : Cost) : c ≤ c + d := by
  cases c <;> cases d <;> simp

theorem le_add_left (c d : Cost) : c ≤ d + c := by
  cases c <;> cases d <;> simp

theorem add_assoc (b c d : Cost) : b + c + d = b + (c + d) := by
  cases b <;> cases c <;> cases d <;> simp [Nat.add_assoc]

theorem add_left_comm (b c d : Cost) : b + (c + d) = c + (b + d) := by
  cases b <;> cases c <;> cases d <;> simp [Nat.add_left_comm]

@[simp] theorem zero_add (c : Cost) : 0 + c = c := by
  cases c with
  | finite n => exact congrArg finite (Nat.zero_add n)
  | infinite => rfl

theorem min_le_left (c d : Cost) : c.min d ≤ c := by
  unfold min
  split
  · exact le_refl c
  · next h => exact (le_total c d).resolve_left h

theorem min_le_right (c d : Cost) : c.min d ≤ d := by
  unfold min
  split
  · next h => exact h
  · exact le_refl d

end Cost

/-! ## Components -/

/-- A component of a pair of costs: it goes along with sums and minima, and a production
costs as much as its right side and a fixed amount more. -/
structure Component (part : Costs → Cost) (extra : Cost) : Prop where
  zero : part .zero = 0
  add : ∀ c d, part (c + d) = part c + part d
  min : ∀ c d, part (c.min d) = (part c).min (part d)
  infinite : part .infinite = .infinite
  production : ∀ (g : Grammar) (table : CostTable) (p : Production),
    part (g.costOfProduction table p) = extra + part (g.costOfForm table p.symbols)

theorem component_yield : Component Costs.yield 0 :=
  ⟨rfl, fun _ _ => rfl, fun _ _ => rfl, rfl, fun _ _ _ => (Cost.zero_add _).symm⟩

theorem component_steps : Component Costs.steps (.finite 1) :=
  ⟨rfl, fun _ _ => rfl, fun _ _ => rfl, rfl, fun _ _ _ => rfl⟩

namespace Grammar

variable {g : Grammar} {part : Costs → Cost} {extra : Cost} {table other : CostTable} {form : Form}
  {symbol : Text} {p : Production}

theorem costOfForm_cons (g : Grammar) (table : CostTable) (symbol : Text) (form : Form) :
    g.costOfForm table (symbol :: form) = g.costOf table symbol + g.costOfForm table form := rfl

/-- A form costs no less than one of its non-terminals. -/
theorem le_costOfForm (hpart : Component part extra) (hmem : symbol ∈ form)
    (hsymbol : g.isNonTerminal symbol) :
    part (table.get symbol) ≤ part (g.costOfForm table form) := by
  induction form with
  | nil => exact absurd hmem List.not_mem_nil
  | cons s form ih =>
      rw [costOfForm_cons, hpart.add]
      obtain heq | hmem := List.mem_cons.1 hmem
      · rw [← heq, costOf, if_pos hsymbol]
        exact Cost.le_add_right _ _
      · exact Cost.le_trans (ih hmem) (Cost.le_add_left _ _)

/-- A form whose non-terminals cost no more costs no more. -/
theorem costOfForm_le_costOfForm (hpart : Component part extra)
    (h : ∀ s ∈ form, g.isNonTerminal s → part (table.get s) ≤ part (other.get s)) :
    part (g.costOfForm table form) ≤ part (g.costOfForm other form) := by
  induction form with
  | nil => exact Cost.le_refl _
  | cons s form ih =>
      rw [costOfForm_cons, costOfForm_cons, hpart.add, hpart.add]
      apply Cost.add_le_add
      · unfold costOf
        split
        · next hs => exact h s (by simp) hs
        · exact Cost.le_refl _
      · exact ih fun t ht => h t (by simp [ht])

theorem le_costOfProduction (hpart : Component part extra) (hmem : symbol ∈ p.symbols)
    (hsymbol : g.isNonTerminal symbol) :
    part (table.get symbol) ≤ part (g.costOfProduction table p) := by
  rw [hpart.production]
  exact Cost.le_trans (le_costOfForm hpart hmem hsymbol) (Cost.le_add_left _ _)

theorem costOfProduction_le_costOfProduction (hpart : Component part extra)
    (h : ∀ s ∈ p.symbols, g.isNonTerminal s → part (table.get s) ≤ part (other.get s)) :
    part (g.costOfProduction table p) ≤ part (g.costOfProduction other p) := by
  rw [hpart.production, hpart.production]
  exact Cost.add_le_add (Cost.le_refl extra) (costOfForm_le_costOfForm hpart h)

end Grammar

/-! ## Lowering -/

namespace CostTable

/-- The non-terminals of a table. -/
def keys (table : CostTable) : List Text := table.map (·.1)

theorem keys_cons (e : Text × Costs) (table : CostTable) :
    CostTable.keys (e :: table) = e.1 :: table.keys := rfl

@[simp] theorem keys_lower (table : CostTable) (symbol : Text) (costs : Costs) :
    (table.lower symbol costs).keys = table.keys := by
  simp only [keys, lower, List.map_map]
  apply List.map_congr_left
  intro e _
  simp only [Function.comp_apply]
  split <;> rfl

theorem get_cons (e : Text × Costs) (table : CostTable) (symbol : Text) :
    CostTable.get (e :: table) symbol = if symbol = e.1 then e.2 else table.get symbol := by
  obtain ⟨key, value⟩ := e
  by_cases h : symbol = key
  · simp [get, h]
  · have hne : (symbol == key) = false := by simpa using h
    simp [get, List.lookup_cons, h, hne]

theorem lower_cons (e : Text × Costs) (table : CostTable) (symbol : Text) (costs : Costs) :
    lower (e :: table) symbol costs =
      (if e.1 = symbol then (e.1, e.2.min costs) else e) :: lower table symbol costs := rfl

theorem get_eq_infinite {table : CostTable} {symbol : Text} (h : symbol ∉ table.keys) :
    table.get symbol = .infinite := by
  induction table with
  | nil => rfl
  | cons e table ih =>
      rw [keys_cons, List.mem_cons, not_or] at h
      rw [get_cons, if_neg h.1]
      exact ih h.2

/-- Lowering changes the costs of one non-terminal of the table to the smaller ones. -/
theorem get_lower (table : CostTable) (symbol other : Text) (costs : Costs) :
    (table.lower symbol costs).get other =
      if other = symbol ∧ other ∈ table.keys then (table.get other).min costs
      else table.get other := by
  induction table with
  | nil => simp [lower, keys]
  | cons e table ih =>
      have hkey : (if e.1 = symbol then (e.1, e.2.min costs) else e).1 = e.1 := by
        split <;> rfl
      rw [lower_cons, get_cons, get_cons, ih, hkey]
      by_cases hother : other = e.1
      · by_cases hsymbol : e.1 = symbol
        · simp [hother, hsymbol, keys_cons]
        · simp [hother, hsymbol]
      · simp [hother, keys_cons]

end CostTable

namespace Grammar

variable {g : Grammar} {part : Costs → Cost} {extra : Cost} {table : CostTable} {symbol : Text}
  {p : Production}

/-! ## One production -/

@[simp] theorem keys_relax (g : Grammar) (table : CostTable) (p : Production) :
    (g.relax table p).keys = table.keys := CostTable.keys_lower table p.left _

/-- A production leaves a cost alone, or lowers that of its left side to its own. -/
theorem relax_cases (hpart : Component part extra) (g : Grammar) (table : CostTable)
    (p : Production) (symbol : Text) :
    part ((g.relax table p).get symbol) = part (table.get symbol) ∨
      symbol = p.left ∧ symbol ∈ table.keys ∧
        part ((g.relax table p).get symbol) = part (g.costOfProduction table p) := by
  rw [relax, CostTable.get_lower]
  split
  · next h =>
    rw [hpart.min, Cost.min]
    split
    · exact .inl rfl
    · exact .inr ⟨h.1, h.2, rfl⟩
  · exact .inl rfl

theorem relax_le (hpart : Component part extra) (g : Grammar) (table : CostTable) (p : Production)
    (symbol : Text) :
    part ((g.relax table p).get symbol) ≤ part (table.get symbol) := by
  rw [relax, CostTable.get_lower]
  split
  · rw [hpart.min]
    exact Cost.min_le_left _ _
  · exact Cost.le_refl _

theorem relax_left_le (hpart : Component part extra) (g : Grammar) (hleft : p.left ∈ table.keys) :
    part ((g.relax table p).get p.left) ≤ part (g.costOfProduction table p) := by
  rw [relax, CostTable.get_lower, if_pos ⟨rfl, hleft⟩, hpart.min]
  exact Cost.min_le_right _ _

/-! ## One sweep -/

theorem keys_foldl_relax (g : Grammar) (ps : List Production) (table : CostTable) :
    (ps.foldl g.relax table).keys = table.keys := by
  induction ps generalizing table with
  | nil => rfl
  | cons p ps ih => rw [List.foldl_cons, ih, keys_relax]

theorem foldl_relax_le (hpart : Component part extra) (g : Grammar) (ps : List Production)
    (table : CostTable) (symbol : Text) :
    part ((ps.foldl g.relax table).get symbol) ≤ part (table.get symbol) := by
  induction ps generalizing table with
  | nil => exact Cost.le_refl _
  | cons p ps ih =>
      rw [List.foldl_cons]
      exact Cost.le_trans (ih _) (relax_le hpart g table p symbol)

theorem foldl_relax_left_le (hpart : Component part extra) (g : Grammar) (ps : List Production)
    (table : CostTable) (hp : p ∈ ps) (hleft : p.left ∈ table.keys) :
    part ((ps.foldl g.relax table).get p.left) ≤ part (g.costOfProduction table p) := by
  induction ps generalizing table with
  | nil => exact absurd hp List.not_mem_nil
  | cons q ps ih =>
      rw [List.foldl_cons]
      obtain heq | hp := List.mem_cons.1 hp
      · subst heq
        exact Cost.le_trans (foldl_relax_le hpart g ps _ _) (relax_left_le hpart g hleft)
      · have hrest := ih (g.relax table q) hp (by rw [keys_relax]; exact hleft)
        apply Cost.le_trans hrest
        exact costOfProduction_le_costOfProduction hpart
          fun s _ _ => relax_le hpart g table q s

@[simp] theorem keys_sweep (g : Grammar) (table : CostTable) :
    (g.sweep table).keys = table.keys := keys_foldl_relax g g.productions table

/-- A sweep raises no cost. -/
theorem sweep_le (hpart : Component part extra) (g : Grammar) (table : CostTable) (symbol : Text) :
    part ((g.sweep table).get symbol) ≤ part (table.get symbol) :=
  foldl_relax_le hpart g g.productions table symbol

/-- After a sweep no left side costs more than its production did before. -/
theorem sweep_left_le (hpart : Component part extra) (hp : p ∈ g.productions)
    (hleft : p.left ∈ table.keys) :
    part ((g.sweep table).get p.left) ≤ part (g.costOfProduction table p) :=
  foldl_relax_left_le hpart g g.productions table hp hleft

/-- Whether a sweep lowers the cost of a non-terminal. -/
def Falls (g : Grammar) (part : Costs → Cost) (table : CostTable) (symbol : Text) : Prop :=
  ¬ part (table.get symbol) ≤ part ((g.sweep table).get symbol)

/-- Only the cost of a declared non-terminal falls. -/
theorem Falls.mem_keys (h : g.Falls part table symbol) : symbol ∈ table.keys := by
  by_contra hnot
  apply h
  rw [CostTable.get_eq_infinite hnot, CostTable.get_eq_infinite (by rw [keys_sweep]; exact hnot)]
  exact Cost.le_refl _

/-! ## Sweep after sweep -/

/-- If no cost up to a value fell in one sweep, then in the next one every cost that is
no greater stays what it was. -/
theorem foldl_relax_kept (hpart : Component part extra) {value : Cost}
    (hquiet : ∀ s, part ((g.sweep table).get s) ≤ value →
      part (table.get s) ≤ part ((g.sweep table).get s))
    (ps : List Production) (hps : ∀ p ∈ ps, p ∈ g.productions) (now : CostTable)
    (hkeys : now.keys = table.keys)
    (hnow : ∀ s, part (now.get s) ≤ value →
      part ((g.sweep table).get s) ≤ part (now.get s)) :
    ∀ s, part ((ps.foldl g.relax now).get s) ≤ value →
      part ((g.sweep table).get s) ≤ part ((ps.foldl g.relax now).get s) := by
  induction ps generalizing now with
  | nil => exact hnow
  | cons p ps ih =>
      apply ih (fun q hq => hps q (by simp [hq])) _ (by rw [keys_relax, hkeys])
      intro s hs
      obtain hsame | ⟨hleft, hmem, hcost⟩ := relax_cases hpart g now p s
      · rw [hsame] at hs ⊢
        exact hnow s hs
      · -- the production cost no more before the first sweep, which made use of it
        rw [hcost] at hs ⊢
        rw [hkeys, hleft] at hmem
        rw [hleft]
        apply Cost.le_trans (sweep_left_le hpart (hps p (by simp)) hmem)
        apply costOfProduction_le_costOfProduction hpart
        intro r hr hnonterminal
        have hrvalue := Cost.le_trans (le_costOfProduction hpart hr hnonterminal) hs
        have hrnow := hnow r hrvalue
        exact Cost.le_trans (hquiet r (Cost.le_trans hrnow hrvalue)) hrnow

/-- **What falls in one sweep** falls because a cost no greater fell in the sweep
before. -/
theorem exists_falls_before (hpart : Component part extra)
    (h : g.Falls part (g.sweep table) symbol) :
    ∃ cause, g.Falls part table cause ∧
      part ((g.sweep table).get cause) ≤ part ((g.sweep (g.sweep table)).get symbol) := by
  by_contra hnone
  apply h
  have hquiet : ∀ s, part ((g.sweep table).get s) ≤
      part ((g.sweep (g.sweep table)).get symbol) →
      part (table.get s) ≤ part ((g.sweep table).get s) := by
    intro s hs
    by_contra hfalls
    exact hnone ⟨s, hfalls, hs⟩
  exact foldl_relax_kept hpart hquiet g.productions (fun _ hp => hp) (g.sweep table)
    (keys_sweep g table) (fun s _ => Cost.le_refl _) symbol (Cost.le_refl _)

/-- The table after so many sweeps. -/
def sweeps (g : Grammar) (table : CostTable) : Nat → CostTable
  | 0 => table
  | n + 1 => g.sweep (sweeps g table n)

@[simp] theorem keys_sweeps (g : Grammar) (table : CostTable) (n : Nat) :
    (g.sweeps table n).keys = table.keys := by
  induction n with
  | zero => rfl
  | succ n ih => rw [sweeps, keys_sweep, ih]

theorem sweeps_sweep (g : Grammar) (table : CostTable) (n : Nat) :
    g.sweeps (g.sweep table) n = g.sweeps table (n + 1) := by
  induction n with
  | zero => rfl
  | succ n ih => rw [sweeps, ih]; rfl

theorem sweeps_le (hpart : Component part extra) (g : Grammar) (table : CostTable) (symbol : Text)
    {m n : Nat} (h : m ≤ n) :
    part ((g.sweeps table n).get symbol) ≤ part ((g.sweeps table m).get symbol) := by
  induction h with
  | refl => exact Cost.le_refl _
  | step _ ih => exact Cost.le_trans (sweep_le hpart g _ symbol) ih

/-- A cost that falls after so many sweeps ends a chain of as many other non-terminals,
the cost of each of which fell before and was no greater. -/
theorem Falls.chain (hpart : Component part extra) {n : Nat}
    (h : g.Falls part (g.sweeps table n) symbol) :
    ∃ chain : List Text, chain.length = n + 1 ∧ chain.Nodup ∧
      ∀ s ∈ chain, ∃ i ≤ n, g.Falls part (g.sweeps table i) s ∧
        part ((g.sweeps table (i + 1)).get s) ≤
          part ((g.sweeps table (n + 1)).get symbol) := by
  induction n generalizing symbol with
  | zero =>
      refine ⟨[symbol], rfl, List.nodup_singleton symbol, ?_⟩
      intro s hs
      rw [List.mem_singleton.1 hs]
      exact ⟨0, Nat.le_refl 0, h, Cost.le_refl _⟩
  | succ n ih =>
      obtain ⟨cause, hcause, hle⟩ := exists_falls_before hpart h
      obtain ⟨chain, hlen, hnodup, hchain⟩ := ih hcause
      have hbelow : ∀ s ∈ chain, ∃ i ≤ n, g.Falls part (g.sweeps table i) s ∧
          part ((g.sweeps table (i + 1)).get s) ≤
            part ((g.sweeps table (n + 2)).get symbol) := by
        intro s hs
        obtain ⟨i, hi, hfalls, hsle⟩ := hchain s hs
        exact ⟨i, hi, hfalls, Cost.le_trans hsle hle⟩
      refine ⟨symbol :: chain, by simp [hlen], ?_, ?_⟩
      · refine List.nodup_cons.2 ⟨?_, hnodup⟩
        intro hmem
        obtain ⟨i, hi, _, hsle⟩ := hbelow symbol hmem
        exact h (Cost.le_trans (sweeps_le hpart g table symbol (by omega)) hsle)
      · intro s hs
        obtain heq | hs := List.mem_cons.1 hs
        · rw [heq]
          exact ⟨n + 1, Nat.le_refl _, h, Cost.le_refl _⟩
        · obtain ⟨i, hi, hrest⟩ := hbelow s hs
          exact ⟨i, by omega, hrest⟩

/-- **After so many sweeps** as the table has non-terminals no cost falls any more. -/
theorem not_falls (hpart : Component part extra) {n : Nat} (hn : table.length ≤ n) :
    ¬ g.Falls part (g.sweeps table n) symbol := by
  intro h
  obtain ⟨chain, hlen, hnodup, hchain⟩ := h.chain hpart
  have hsubset : chain ⊆ table.keys := by
    intro s hs
    obtain ⟨i, _, hfalls, _⟩ := hchain s hs
    have hmem := hfalls.mem_keys
    rwa [keys_sweeps] at hmem
  have hle := (hnodup.subperm hsubset).length_le
  rw [CostTable.keys, List.length_map] at hle
  omega

/-- Settling ends with a table that no sweep changes, or after as many sweeps as allowed. -/
theorem settle_eq_sweeps (g : Grammar) (bound : Nat) (table : CostTable) :
    ∃ n, g.settle bound table = g.sweeps table n ∧
      (g.sweep (g.sweeps table n) = g.sweeps table n ∨ n = bound) := by
  induction bound generalizing table with
  | zero => exact ⟨0, rfl, .inr rfl⟩
  | succ bound ih =>
      rw [settle]
      by_cases hstable : g.sweep table = table
      · exact ⟨0, if_pos hstable, .inl hstable⟩
      · simp only [hstable, if_false]
        obtain ⟨n, heq, hend⟩ := ih (g.sweep table)
        rw [sweeps_sweep] at heq hend
        exact ⟨n + 1, heq, hend.imp_right (congrArg (· + 1))⟩

end Grammar

end FormalMachines.ContextFree
