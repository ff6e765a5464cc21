import FormalMachines.ContextFree.Attempt
import FormalMachines.Proofs.ContextFree.Bound
import Mathlib.Tactic.Ring

/-!
# FormalMachines.Proofs.ContextFree.Reckoning

The costs of the non-terminals as a run works them out.

Where every table has the entries that are looked up, one failure is left: a number out of
range beside infinity.  A computation that gives a value but for this failure *reckons* it,
within a limit on the number (`Reckons`).  The costs are reckoned (`reckons_attemptCosts`):

* a cost that becomes finite is made of costs that were so before it, so the table never
  holds a number greater than a power of the width of the grammar (`Tame`);
* the sweeps end because so many as there are non-terminals leave nothing to lower, and
  tables of the same entries are equal (`sweep_sweeps_eq`).
-/

namespace FormalMachines.ContextFree

/-! ## Values but for numbers out of range -/

/-- Whether a computation gives a value, or else fails for a number that is out of range and
within a limit. -/
inductive Reckons {α : Type} (limit : Nat) (value : α) : Except Fault α → Prop where
  | ok : Reckons limit value (.ok value)
  | outOfRange {n : Nat} (out : Cost.range ≤ n) (within : n ≤ limit) :
      Reckons limit value (.error (.value (.outOfRange n)))

namespace Reckons

variable {α β : Type} {limit : Nat} {x : Except Fault α} {a c : α} {f : α → Except Fault β} {b : β}

theorem bind (h : Reckons limit a x) (hf : Reckons limit b (f a)) : Reckons limit b (x >>= f) := by
  cases h with
  | ok => exact hf
  | outOfRange out within => exact .outOfRange out within

theorem mono {less : Nat} (h : Reckons less a x) (hle : less ≤ limit) : Reckons limit a x := by
  cases h with
  | ok => exact .ok
  | outOfRange out within => exact .outOfRange out (Nat.le_trans within hle)

/-- There is one value to give. -/
theorem eq_of_ok (h : Reckons limit a x) (hx : x = .ok c) : c = a := by
  subst hx
  cases h
  rfl

/-- There is one way to fail. -/
theorem eq_ok_or (h : Reckons limit a x) :
    x = .ok a ∨ ∃ n, Cost.range ≤ n ∧ n ≤ limit ∧ x = .error (.value (.outOfRange n)) := by
  cases h with
  | ok => exact .inl rfl
  | outOfRange out within => exact .inr ⟨_, out, within, rfl⟩

/-- Within the range nothing fails. -/
theorem eq_ok (h : Reckons limit a x) (hlimit : limit < Cost.range) : x = .ok a := by
  cases h with
  | ok => rfl
  | outOfRange out within => omega

/-- A list is folded by computations that keep an invariant. -/
theorem foldlM {f : α → β → Except Fault α} {g : α → β → α} {inv : α → Prop} {xs : List β}
    (hf : ∀ x ∈ xs, ∀ a, inv a → Reckons limit (g a x) (f a x))
    (hinv : ∀ x ∈ xs, ∀ a, inv a → inv (g a x)) (ha : inv a) :
    Reckons limit (xs.foldl g a) (xs.foldlM f a) := by
  induction xs generalizing a with
  | nil => exact .ok
  | cons x xs ih =>
      rw [List.foldlM_cons, List.foldl_cons]
      refine (hf x (by simp) a ha).bind (ih ?_ ?_ (hinv x (by simp) a ha))
      · exact fun y hy => hf y (by simp [hy])
      · exact fun y hy => hinv y (by simp [hy])

end Reckons

/-! ## Bounded costs -/

namespace Cost

/-- Whether a cost is infinite or a number up to a bound. -/
def AtMost : Cost → Nat → Prop
  | .finite m, n => m ≤ n
  | .infinite, _ => True

variable {c d : Cost} {m n : Nat}

theorem AtMost.mono (h : c.AtMost m) (hle : m ≤ n) : c.AtMost n := by
  cases c with
  | finite k => exact Nat.le_trans h hle
  | infinite => trivial

theorem AtMost.add (hc : c.AtMost m) (hd : d.AtMost n) : (c + d).AtMost (m + n) := by
  cases c with
  | finite j =>
      cases d with
      | finite k => exact Nat.add_le_add hc hd
      | infinite => trivial
  | infinite => trivial

/-- A cost that is finite is lowered to one that is no greater. -/
theorem AtMost.min (hc : c.AtMost n) (hne : c ≠ .infinite) : (c.min d).AtMost n := by
  cases c with
  | finite k =>
      unfold Cost.min
      split
      · exact hc
      · next h =>
        cases d with
        | finite j => exact Nat.le_trans (Nat.le_of_lt (Nat.not_le.1 h)) hc
        | infinite => trivial
  | infinite => exact absurd rfl hne

@[simp] theorem infinite_min (d : Cost) : infinite.min d = d := by
  cases d <;> rfl

theorem min_ne_infinite (h : c ≠ .infinite) : c.min d ≠ .infinite := by
  unfold Cost.min
  split
  · exact h
  · next hle =>
    intro hd
    exact hle (hd ▸ le_infinite c)

theorem le_antisymm (hcd : c ≤ d) (hdc : d ≤ c) : c = d := by
  cases c with
  | finite m =>
      cases d with
      | finite n => exact congrArg finite (Nat.le_antisymm hcd hdc)
      | infinite => exact absurd hdc not_infinite_le_finite
  | infinite =>
      cases d with
      | finite n => exact absurd hcd not_infinite_le_finite
      | infinite => rfl

@[simp] theorem add_zero (c : Cost) : c + 0 = c := by
  cases c with
  | finite n => rfl
  | infinite => rfl

theorem infinitePlus_of_le (h : range ≤ n) : infinitePlus n = .error (.value (.outOfRange n)) := by
  rw [infinitePlus, if_neg (Nat.not_lt.2 h)]

/-- **A sum** fails for one of its summands only. -/
theorem reckons_sum (hc : c.AtMost m) (hd : d.AtMost n) : Reckons (m + n) (c + d) (c.sum d) := by
  have hinfinite : ∀ k, k ≤ m + n → Reckons (m + n) Cost.infinite (infinitePlus k) := by
    intro k hk
    unfold infinitePlus
    split
    · exact .ok
    · next h => exact .outOfRange (Nat.not_lt.1 h) hk
  cases c with
  | finite j =>
      cases d with
      | finite k => exact .ok
      | infinite => exact hinfinite j (Nat.le_trans hc (Nat.le_add_right m n))
  | infinite =>
      cases d with
      | finite k => exact hinfinite k (Nat.le_trans hd (Nat.le_add_left n m))
      | infinite => exact .ok

end Cost

namespace Costs

/-- Whether both costs are infinite or up to a bound. -/
structure AtMost (c : Costs) (n : Nat) : Prop where
  yield : c.yield.AtMost n
  steps : c.steps.AtMost n

variable {c d : Costs} {m n : Nat}

theorem ext (hyield : c.yield = d.yield) (hsteps : c.steps = d.steps) : c = d := by
  cases c
  cases d
  cases hyield
  cases hsteps
  rfl

theorem AtMost.add (hc : c.AtMost m) (hd : d.AtMost n) : (c + d).AtMost (m + n) :=
  ⟨hc.yield.add hd.yield, hc.steps.add hd.steps⟩

theorem add_assoc (b c d : Costs) : b + c + d = b + (c + d) := by
  change Costs.mk (b.yield + c.yield + d.yield) (b.steps + c.steps + d.steps) = _
  rw [Cost.add_assoc, Cost.add_assoc]
  rfl

theorem add_zero (c : Costs) : c + .zero = c := by
  change Costs.mk (c.yield + 0) (c.steps + 0) = c
  rw [Cost.add_zero, Cost.add_zero]

theorem reckons_sum (hc : c.AtMost m) (hd : d.AtMost n) : Reckons (m + n) (c + d) (c.sum d) :=
  (Cost.reckons_sum hc.yield hd.yield).bind ((Cost.reckons_sum hc.steps hd.steps).bind .ok)

end Costs

/-! ## Forms -/

namespace CostTable

/-- Whether a table has an entry for every non-terminal, with costs up to a bound. -/
def Covers (table : CostTable) (g : Grammar) (bound : Nat) : Prop :=
  ∀ symbol, g.isNonTerminal symbol → ∃ c : Costs, table.lookup symbol = some c ∧ c.AtMost bound

/-- A table has an entry for each of its keys. -/
theorem exists_lookup {table : CostTable} {symbol : Text} (h : symbol ∈ table.keys) :
    ∃ c, table.lookup symbol = some c ∧ (symbol, c) ∈ table := by
  cases hlookup : table.lookup symbol with
  | none =>
      obtain ⟨e, he, rfl⟩ := List.mem_map.1 h
      have := List.lookup_eq_none_iff.1 hlookup e he
      simp at this
  | some c =>
      obtain ⟨front, back, htable, _⟩ := List.lookup_eq_some_iff.1 hlookup
      exact ⟨c, rfl, by simp [htable]⟩

end CostTable

namespace Grammar

variable {g : Grammar} {table : CostTable} {form : Form} {symbol : Text} {p : Production}
  {bound limit m : Nat}

/-- How many times the bound of a table a symbol can cost: a non-terminal once, and a
terminal its length, which is all that it costs. -/
def weightOf (g : Grammar) (symbol : Text) : Nat :=
  if g.isNonTerminal symbol then 1 else symbol.length

/-- The weights of the symbols of a form, added up. -/
def weight (g : Grammar) (form : Form) : Nat := (form.map g.weightOf).sum

/-- The greatest weight of a right side. -/
def width (g : Grammar) : Nat :=
  g.productions.foldr (fun p widest => max (g.weight p.symbols) widest) 0

@[simp] theorem weight_cons (g : Grammar) (symbol : Text) (form : Form) :
    g.weight (symbol :: form) = g.weightOf symbol + g.weight form := by simp [weight]

@[simp] theorem weight_append (g : Grammar) (front back : Form) :
    g.weight (front ++ back) = g.weight front + g.weight back := by simp [weight]

theorem weight_le_width (hp : p ∈ g.productions) : g.weight p.symbols ≤ g.width := by
  unfold width
  generalize g.productions = ps at hp ⊢
  induction ps with
  | nil => exact absurd hp List.not_mem_nil
  | cons q ps ih =>
      rw [List.foldr_cons]
      obtain rfl | hp := List.mem_cons.1 hp
      · exact Nat.le_max_left _ _
      · exact Nat.le_trans (ih hp) (Nat.le_max_right _ _)

/-- A symbol is looked up without failing, and costs as much as its weight allows. -/
theorem attemptCostOf_eq_ok (htable : table.Covers g bound) (hbound : 1 ≤ bound) (symbol : Text) :
    g.attemptCostOf table symbol = .ok (g.costOf table symbol) ∧
      (g.costOf table symbol).AtMost (g.weightOf symbol * bound) := by
  unfold attemptCostOf costOf weightOf
  by_cases hsymbol : g.isNonTerminal symbol
  · obtain ⟨c, hlookup, hc⟩ := htable symbol hsymbol
    simp only [if_pos hsymbol, entryOf, CostTable.get, hlookup, Option.getD_some, Nat.one_mul,
      true_and]
    exact hc
  · simp only [if_neg hsymbol, true_and]
    exact ⟨Nat.le_mul_of_pos_right _ hbound, Nat.zero_le _⟩

/-- **The costs of a form** are reckoned. -/
theorem reckons_addUp (htable : table.Covers g bound) (hbound : 1 ≤ bound) {total : Costs}
    (htotal : total.AtMost m) (hle : m + g.weight form * bound ≤ limit) :
    Reckons limit (total + g.costOfForm table form) (g.addUp table total form) := by
  unfold addUp
  induction form generalizing total m with
  | nil =>
      rw [show g.costOfForm table [] = .zero from rfl, Costs.add_zero]
      exact .ok
  | cons s form ih =>
      obtain ⟨hok, hcost⟩ := attemptCostOf_eq_ok htable hbound s
      rw [weight_cons, Nat.add_mul, ← Nat.add_assoc] at hle
      rw [List.foldlM_cons, costOfForm_cons, ← Costs.add_assoc, hok]
      apply Reckons.bind ((Costs.reckons_sum htotal hcost).mono (by omega))
      exact ih (htotal.add hcost) hle

end Grammar

/-! ## Growth -/

/-- A condition that holds where another does, and once more, holds more often. -/
theorem countP_lt_countP {α : Type} {p q : α → Bool} {xs : List α} {x : α}
    (h : ∀ y ∈ xs, p y → q y) (hx : x ∈ xs) (hp : p x = false) (hq : q x) :
    xs.countP p < xs.countP q := by
  induction xs with
  | nil => exact absurd hx List.not_mem_nil
  | cons y xs ih =>
      have hrest : ∀ z ∈ xs, p z → q z := fun z hz => h z (by simp [hz])
      obtain rfl | hx := List.mem_cons.1 hx
      · rw [List.countP_cons_of_neg (by simp [hp]), List.countP_cons_of_pos hq]
        exact Nat.lt_succ_of_le (List.countP_mono_left hrest)
      · have hlt := ih hrest hx
        rw [List.countP_cons, List.countP_cons]
        by_cases hy : p y
        · rw [if_pos hy, if_pos (h y (by simp) hy)]
          omega
        · rw [if_neg hy]
          split <;> omega

namespace CostTable

variable {part : Costs → Cost} {extra : Cost} {base bound : Nat} {table : CostTable}

/-- The number of entries of which a component is finite. -/
def known (part : Costs → Cost) (table : CostTable) : Nat :=
  table.countP fun e => part e.2 ≠ .infinite

/-- Whether no entry is greater than a power of the base, the exponent of which counts the
entries that are finite. -/
def Grown (part : Costs → Cost) (base : Nat) (table : CostTable) : Prop :=
  ∀ e ∈ table, (part e.2).AtMost (base ^ table.known part)

theorem mem_of_lookup {symbol : Text} {c : Costs} (h : table.lookup symbol = some c) :
    (symbol, c) ∈ table := by
  obtain ⟨front, back, rfl, _⟩ := List.lookup_eq_some_iff.1 h
  simp

theorem atMost_get (hpart : Component part extra) (h : ∀ e ∈ table, (part e.2).AtMost bound)
    (symbol : Text) : (part (table.get symbol)).AtMost bound := by
  unfold get
  cases hlookup : table.lookup symbol with
  | none =>
      rw [Option.getD_none, hpart.infinite]
      trivial
  | some c => exact h _ (mem_of_lookup hlookup)

/-- The entry that lowering makes of one. -/
theorem known_lower (part : Costs → Cost) (table : CostTable) (symbol : Text) (costs : Costs) :
    (table.lower symbol costs).known part =
      table.countP fun e => part (if e.1 = symbol then e.2.min costs else e.2) ≠ .infinite := by
  rw [known, lower, List.countP_map]
  apply List.countP_congr
  intro e _
  simp only [Function.comp_apply]
  split <;> rfl

/-- What is finite stays so. -/
theorem lowered_ne_infinite (hpart : Component part extra) {e : Text × Costs}
    (h : part e.2 ≠ .infinite) (symbol : Text) (costs : Costs) :
    part (if e.1 = symbol then e.2.min costs else e.2) ≠ .infinite := by
  split
  · rw [hpart.min]
    exact Cost.min_ne_infinite h
  · exact h

/-- Lowering by costs that are one power further keeps a table grown: an entry that becomes
finite takes the exponent along. -/
theorem Grown.lower (hpart : Component part extra) (hbase : 1 ≤ base) (h : table.Grown part base)
    (symbol : Text) {costs : Costs} (hcosts : (part costs).AtMost (base ^ (table.known part + 1))) :
    (table.lower symbol costs).Grown part base := by
  have hkept : table.known part ≤ (table.lower symbol costs).known part := by
    rw [known_lower]
    refine List.countP_mono_left fun e _ he => ?_
    simp only [decide_eq_true_eq] at he ⊢
    exact lowered_ne_infinite hpart he symbol costs
  intro lowered hlowered
  obtain ⟨e, he, rfl⟩ := List.mem_map.1 hlowered
  by_cases hsymbol : e.1 = symbol
  · simp only [if_pos hsymbol, hpart.min]
    by_cases hfinite : part e.2 = .infinite
    · rw [hfinite, Cost.infinite_min]
      by_cases hinfinite : part costs = .infinite
      · rw [hinfinite]
        trivial
      · refine hcosts.mono (Nat.pow_le_pow_right hbase ?_)
        rw [known_lower]
        refine countP_lt_countP (fun x _ hx => ?_) he (by simpa using hfinite) ?_
        · simp only [decide_eq_true_eq] at hx ⊢
          exact lowered_ne_infinite hpart hx symbol costs
        · simpa only [if_pos hsymbol, hpart.min, hfinite, Cost.infinite_min, decide_eq_true_eq]
    · exact ((h e he).min hfinite).mono (Nat.pow_le_pow_right hbase hkept)
  · simp only [if_neg hsymbol]
    exact (h e he).mono (Nat.pow_le_pow_right hbase hkept)

end CostTable

namespace Grammar

variable {g : Grammar} {part : Costs → Cost} {extra : Cost} {table : CostTable} {form : Form}
  {symbol : Text} {p : Production} {base bound limit : Nat}

/-- A component of the costs of a form is as great as its weight allows. -/
theorem atMost_costOfForm (hpart : Component part extra)
    (hterminal : ∀ n, (part ⟨.finite n, 0⟩).AtMost n) (hbound : 1 ≤ bound)
    (h : ∀ e ∈ table, (part e.2).AtMost bound) (form : Form) :
    (part (g.costOfForm table form)).AtMost (g.weight form * bound) := by
  induction form with
  | nil =>
      rw [show g.costOfForm table [] = .zero from rfl, hpart.zero]
      exact Nat.zero_le _
  | cons s form ih =>
      rw [costOfForm_cons, hpart.add, weight_cons, Nat.add_mul]
      refine Cost.AtMost.add ?_ ih
      unfold costOf weightOf
      by_cases hs : g.isNonTerminal s
      · rw [if_pos hs, if_pos hs, Nat.one_mul]
        exact CostTable.atMost_get hpart h s
      · rw [if_neg hs, if_neg hs]
        exact (hterminal s.length).mono (Nat.le_mul_of_pos_right _ hbound)

/-- A production lowers the table by costs that are one power further. -/
theorem grown_relax (hpart : Component part extra) (hextra : extra.AtMost 1)
    (hterminal : ∀ n, (part ⟨.finite n, 0⟩).AtMost n)
    (h : table.Grown part (g.width + 1)) (hp : p ∈ g.productions) :
    (g.relax table p).Grown part (g.width + 1) := by
  apply h.lower hpart (Nat.le_add_left 1 g.width)
  have hbound : 1 ≤ (g.width + 1) ^ table.known part := Nat.one_le_pow _ _ (Nat.succ_pos _)
  have hform := atMost_costOfForm (g := g) hpart hterminal hbound h p.symbols
  rw [hpart.production]
  refine (hextra.add hform).mono ?_
  calc 1 + g.weight p.symbols * (g.width + 1) ^ table.known part
      ≤ (g.width + 1) ^ table.known part + g.width * (g.width + 1) ^ table.known part :=
        Nat.add_le_add hbound (Nat.mul_le_mul_right _ (weight_le_width hp))
    _ = (g.width + 1) ^ (table.known part + 1) := by rw [Nat.pow_succ]; ring

/-- A bound on the costs of the non-terminals. -/
def costBound (g : Grammar) : Nat := (g.width + 1) ^ g.nonTerminals.length

theorem one_le_costBound (g : Grammar) : 1 ≤ g.costBound := Nat.one_le_pow _ _ (Nat.succ_pos _)

/-- Whether a table has the entries of the grammar and no number too great. -/
structure Tame (g : Grammar) (table : CostTable) : Prop where
  keys : table.keys = g.initialCosts.keys
  yield : table.Grown Costs.yield (g.width + 1)
  steps : table.Grown Costs.steps (g.width + 1)

theorem tame_initialCosts (g : Grammar) : g.Tame g.initialCosts := by
  have h : ∀ e ∈ g.initialCosts, e.2 = .infinite := by
    intro e he
    obtain ⟨s, _, rfl⟩ := List.mem_map.1 he
    rfl
  refine ⟨rfl, fun e he => ?_, fun e he => ?_⟩ <;> rw [h e he] <;> trivial

theorem Tame.relax (h : g.Tame table) (hp : p ∈ g.productions) : g.Tame (g.relax table p) where
  keys := by rw [keys_relax, h.keys]
  yield := grown_relax component_yield (Nat.zero_le 1) Nat.le_refl h.yield hp
  steps := grown_relax component_steps (Nat.le_refl 1) (fun n => Nat.zero_le n) h.steps hp

theorem Tame.foldl_relax (h : g.Tame table) {ps : List Production} (hps : ps ⊆ g.productions) :
    g.Tame (ps.foldl g.relax table) := by
  induction ps generalizing table with
  | nil => exact h
  | cons p ps ih =>
      rw [List.foldl_cons]
      exact ih (h.relax (hps (by simp))) fun q hq => hps (by simp [hq])

theorem Tame.sweeps (h : g.Tame table) (n : Nat) : g.Tame (g.sweeps table n) := by
  induction n with
  | zero => exact h
  | succ n ih => exact ih.foldl_relax fun _ hp => hp

theorem length_initialCosts_le (g : Grammar) : g.initialCosts.length ≤ g.nonTerminals.length := by
  rw [initialCosts, List.length_map]
  exact List.length_filterMap_le _ _

/-- What a tame table has of a non-terminal. -/
theorem Tame.covers (h : g.Tame table) : table.Covers g g.costBound := by
  have hlen : table.length ≤ g.nonTerminals.length := by
    have hkeys := congrArg List.length h.keys
    rw [CostTable.keys, CostTable.keys, List.length_map, List.length_map] at hkeys
    rw [hkeys]
    exact length_initialCosts_le g
  have hpow : ∀ part, (g.width + 1) ^ table.known part ≤ g.costBound := fun part =>
    Nat.pow_le_pow_right (Nat.succ_pos _) (Nat.le_trans List.countP_le_length hlen)
  intro symbol hsymbol
  have hkey : symbol ∈ table.keys := by
    rw [h.keys]
    exact mem_keys_initialCosts_iff.2 hsymbol
  obtain ⟨c, hlookup, hmem⟩ := CostTable.exists_lookup hkey
  exact ⟨c, hlookup, (h.yield _ hmem).mono (hpow _), (h.steps _ hmem).mono (hpow _)⟩

/-! ## Sweeps -/

/-- The production of a declared non-terminal lowers the table without failing otherwise. -/
theorem reckons_attemptRelax (h : g.Tame table) (hp : p ∈ g.productions)
    (hleft : g.isNonTerminal p.left) (hlimit : 1 + g.width * g.costBound ≤ limit) :
    Reckons limit (g.relax table p) (g.attemptRelax table p) := by
  have hone : Costs.AtMost ⟨0, .finite 1⟩ 1 := ⟨Nat.zero_le 1, Nat.le_refl 1⟩
  have hle : 1 + g.weight p.symbols * g.costBound ≤ limit :=
    Nat.le_trans (Nat.add_le_add_left (Nat.mul_le_mul_right _ (weight_le_width hp)) 1) hlimit
  have hsum : Reckons limit (⟨0, .finite 1⟩ + g.costOfForm table p.symbols)
      (g.addUp table ⟨0, .finite 1⟩ p.symbols) :=
    reckons_addUp h.covers g.one_le_costBound hone hle
  have hcosts : (⟨0, .finite 1⟩ : Costs) + g.costOfForm table p.symbols =
      g.costOfProduction table p := by
    change Costs.mk (0 + _) _ = _
    rw [Cost.zero_add]
    rfl
  rw [hcosts] at hsum
  obtain ⟨c, hlookup, _⟩ := h.covers p.left hleft
  apply hsum.bind
  rw [entryOf, hlookup]
  exact .ok

/-- Productions of the grammar lower the table in turn. -/
theorem reckons_foldlM_attemptRelax (hg : g.Valid) (h : g.Tame table) {ps : List Production}
    (hps : ps ⊆ g.productions) (hlimit : 1 + g.width * g.costBound ≤ limit) :
    Reckons limit (ps.foldl g.relax table) (ps.foldlM g.attemptRelax table) := by
  refine Reckons.foldlM (fun p hp t ht => ?_) (fun p hp t ht => ?_) h
  · exact reckons_attemptRelax ht (hps hp) (hg.2.2.2 p (hps hp)).1 hlimit
  · exact ht.relax (hps hp)

theorem reckons_attemptSweep (hg : g.Valid) (h : g.Tame table)
    (hlimit : 1 + g.width * g.costBound ≤ limit) :
    Reckons limit (g.sweep table) (g.attemptSweep table) :=
  reckons_foldlM_attemptRelax hg h (fun _ hp => hp) hlimit

/-- The non-terminals of the table are distinct, as those that are declared are. -/
theorem nodup_keys_initialCosts (hg : g.Valid) : g.initialCosts.keys.Nodup := by
  have hkeys : g.initialCosts.keys = g.nonTerminals.filterMap Atom.text? := by
    rw [initialCosts, CostTable.keys, List.map_map]
    exact List.map_id _
  rw [hkeys]
  refine List.Nodup.filterMap (fun a b s ha hb => ?_) hg.1.of_map
  cases a <;> cases b <;> simp_all [Atom.text?]

end Grammar

/-- Tables of the same distinct entries with the same costs are equal. -/
theorem CostTable.ext {table other : CostTable} (hnodup : table.keys.Nodup)
    (hkeys : table.keys = other.keys) (h : ∀ symbol, table.get symbol = other.get symbol) :
    table = other := by
  induction table generalizing other with
  | nil =>
      cases other with
      | nil => rfl
      | cons e other => cases hkeys
  | cons d table ih =>
      cases other with
      | nil => cases hkeys
      | cons e other =>
          rw [keys_cons, keys_cons] at hkeys
          obtain ⟨hkey, hkeys⟩ := List.cons_eq_cons.1 hkeys
          rw [keys_cons] at hnodup
          obtain ⟨hnot, hnodup⟩ := List.nodup_cons.1 hnodup
          have hcost : d.2 = e.2 := by
            have hd := h d.1
            rwa [get_cons, get_cons, if_pos rfl, if_pos hkey] at hd
          rw [Prod.ext hkey hcost, ih hnodup hkeys fun symbol => ?_]
          by_cases hsymbol : symbol = d.1
          · rw [hsymbol, get_eq_infinite hnot, get_eq_infinite (hkeys ▸ hnot)]
          · have hs := h symbol
            rwa [get_cons, get_cons, if_neg hsymbol, if_neg (hkey ▸ hsymbol)] at hs

namespace Grammar

variable {g : Grammar} {table : CostTable} {limit : Nat}

/-- **After so many sweeps** as there are non-terminals no sweep changes the table. -/
theorem sweep_sweeps_eq (hg : g.Valid) {n : Nat} (hn : g.nonTerminals.length ≤ n) :
    g.sweep (g.sweeps g.initialCosts n) = g.sweeps g.initialCosts n := by
  have hlen : g.initialCosts.length ≤ n := Nat.le_trans (length_initialCosts_le g) hn
  refine CostTable.ext ?_ (keys_sweep g _) fun symbol => ?_
  · rw [keys_sweep, keys_sweeps]
    exact nodup_keys_initialCosts hg
  · have hsame : ∀ {part extra}, Component part extra →
        part ((g.sweep (g.sweeps g.initialCosts n)).get symbol) =
          part ((g.sweeps g.initialCosts n).get symbol) := fun hpart =>
      Cost.le_antisymm (sweep_le hpart g _ symbol) (by
        by_contra hfalls
        exact not_falls hpart hlen hfalls)
    exact Costs.ext (hsame component_yield) (hsame component_steps)

/-- Settling is reckoned if some sweep within the bound changes nothing. -/
theorem reckons_attemptSettle (hg : g.Valid) (hlimit : 1 + g.width * g.costBound ≤ limit)
    {bound n : Nat} (h : g.Tame table) (hn : n < bound)
    (hstable : g.sweep (g.sweeps table n) = g.sweeps table n) :
    Reckons limit (g.settle bound table) (g.attemptSettle bound table) := by
  induction bound generalizing table n with
  | zero => exact absurd hn (Nat.not_lt_zero n)
  | succ bound ih =>
      rw [attemptSettle, settle]
      apply (reckons_attemptSweep hg h hlimit).bind
      by_cases hsame : g.sweep table = table
      · simp only [hsame, if_true]
        exact .ok
      · simp only [hsame, if_false]
        cases n with
        | zero => exact absurd hstable hsame
        | succ n =>
            rw [← sweeps_sweep] at hstable
            exact ih (h.sweeps 1) (Nat.lt_of_succ_lt_succ hn) hstable

/-- **The costs** of the non-terminals are reckoned. -/
theorem reckons_attemptCosts (hg : g.Valid) (hlimit : 1 + g.width * g.costBound ≤ limit) :
    Reckons limit g.costs g.attemptCosts :=
  reckons_attemptSettle hg hlimit (tame_initialCosts g) (Nat.lt_succ_self _)
    (sweep_sweeps_eq hg (Nat.le_refl _))

theorem covers_costs (g : Grammar) : g.costs.Covers g g.costBound := by
  obtain ⟨n, heq, _⟩ := g.settle_eq_sweeps (g.nonTerminals.length + 1) g.initialCosts
  rw [costs, heq]
  exact ((tame_initialCosts g).sweeps n).covers

end Grammar

end FormalMachines.ContextFree
