import FormalMachines.ContextFree.Leftmost
import FormalMachines.Proofs.ContextFree.Cost

/-!
# FormalMachines.Proofs.ContextFree.Bound

The costs of a form bound its derivations from below.

No production undercuts the settled costs of its left side (`costs_le_costOfProduction`),
so a step lowers the costs of a form by no more than the step itself costs
(`costOfForm_step_le`).  A form that derives a text therefore costs no more than the
length of that text and the number of steps (`yield_le_of_spells`, `steps_le_of_spells`).
-/

namespace FormalMachines.ContextFree.Grammar

variable {g : Grammar} {part : Costs → Cost} {extra : Cost} {table : CostTable}
  {form next last : Form} {p : Production} {ps : List Production} {text : Text}

/-! ## Settled costs -/

theorem mem_keys_initialCosts_iff {symbol : Text} :
    symbol ∈ g.initialCosts.keys ↔ g.isNonTerminal symbol := by
  simp only [initialCosts, CostTable.keys, List.map_map, isNonTerminal, decide_eq_true_eq]
  constructor
  · intro h
    obtain ⟨s, hs, heq⟩ := List.mem_map.1 h
    obtain ⟨a, ha, htext⟩ := List.mem_filterMap.1 hs
    cases a <;> simp_all [Atom.text?]
  · intro h
    exact List.mem_map.2 ⟨symbol, List.mem_filterMap.2 ⟨.text symbol, h, rfl⟩, rfl⟩

/-- No sweep lowers the settled costs. -/
theorem not_falls_costs (hpart : Component part extra) {symbol : Text} :
    ¬ g.Falls part g.costs symbol := by
  obtain ⟨n, heq, hend⟩ := g.settle_eq_sweeps (g.nonTerminals.length + 1) g.initialCosts
  rw [costs, heq]
  obtain hstable | hbound := hend
  · intro h
    rw [Falls, hstable] at h
    exact h (Cost.le_refl _)
  · apply not_falls hpart
    have hlen : g.initialCosts.length ≤ g.nonTerminals.length := by
      rw [initialCosts, List.length_map]
      exact List.length_filterMap_le _ _
    omega

/-- No production undercuts the settled costs of its left side. -/
theorem costs_le_costOfProduction (hpart : Component part extra) (hp : p ∈ g.productions)
    (hleft : g.isNonTerminal p.left) :
    part (g.costs.get p.left) ≤ part (g.costOfProduction g.costs p) := by
  have hkept : part (g.costs.get p.left) ≤ part ((g.sweep g.costs).get p.left) := by
    by_contra h
    exact not_falls_costs hpart h
  apply Cost.le_trans hkept
  apply sweep_left_le hpart hp
  obtain ⟨n, heq, _⟩ := g.settle_eq_sweeps (g.nonTerminals.length + 1) g.initialCosts
  rw [costs, heq, keys_sweeps]
  exact mem_keys_initialCosts_iff.2 hleft

/-! ## Derivations -/

theorem costOfForm_append (hpart : Component part extra) (front back : Form) :
    part (g.costOfForm table (front ++ back)) =
      part (g.costOfForm table front) + part (g.costOfForm table back) := by
  induction front with
  | nil =>
      rw [show g.costOfForm table [] = .zero from rfl, hpart.zero, Cost.zero_add]
      rfl
  | cons s front ih =>
      rw [List.cons_append, costOfForm_cons, costOfForm_cons, hpart.add, hpart.add, ih,
        Cost.add_assoc]

/-- A step lowers the costs of a form by no more than the step itself costs. -/
theorem costOfForm_step_le (hpart : Component part extra) (h : g.Step form p next) :
    part (g.costOfForm g.costs form) ≤ extra + part (g.costOfForm g.costs next) := by
  obtain ⟨l, hl, hp, rfl⟩ := h
  obtain ⟨hform, hsymbol, _⟩ := form_of_leftmost? hl
  obtain ⟨hmem, hleft⟩ := mem_productionsFor.1 hp
  have hle := costs_le_costOfProduction hpart hmem (hleft ▸ hsymbol)
  rw [hpart.production, hleft] at hle
  have hsplit : part (g.costOfForm g.costs form) = part (g.costOfForm g.costs l.before) +
      (part (g.costs.get l.symbol) + part (g.costOfForm g.costs l.after)) := by
    rw [← hform, Leftmost.form, costOfForm_append hpart, costOfForm_cons, hpart.add, costOf,
      if_pos hsymbol]
  rw [hsplit, Leftmost.replace, costOfForm_append hpart, costOfForm_append hpart]
  generalize part (g.costOfForm g.costs l.before) = before
  generalize part (g.costOfForm g.costs l.after) = after
  calc
    before + (part (g.costs.get l.symbol) + after)
      ≤ before + (extra + part (g.costOfForm g.costs p.symbols) + after) :=
        Cost.add_le_add (Cost.le_refl before) (Cost.add_le_add hle (Cost.le_refl after))
    _ = extra + (before + part (g.costOfForm g.costs p.symbols) + after) := by
        rw [Cost.add_assoc, Cost.add_assoc, Cost.add_left_comm]

/-- A form of terminals costs its length and no step. -/
theorem costOfForm_terminal (h : g.IsTerminal form) (table : CostTable) :
    g.costOfForm table form = ⟨.finite (spell form).length, 0⟩ := by
  induction form with
  | nil => rfl
  | cons s form ih =>
      rw [costOfForm_cons, ih fun t ht => h t (by simp [ht]), costOf, h s (by simp)]
      simp [spell]
      rfl

/-- **A form yields** no less than the length it costs. -/
theorem yield_le_of_spells (h : g.Spells form ps text) :
    (g.costOfForm g.costs form).yield ≤ .finite text.length := by
  obtain ⟨last, hderives, hterminal, htext⟩ := h
  induction hderives with
  | nil form =>
      rw [costOfForm_terminal hterminal, htext]
      exact Cost.le_refl _
  | cons step _ ih =>
      have hstep := costOfForm_step_le component_yield step
      rw [Cost.zero_add] at hstep
      exact Cost.le_trans hstep (ih hterminal htext)

/-- **A form takes** no fewer steps than it costs. -/
theorem steps_le_of_spells (h : g.Spells form ps text) :
    (g.costOfForm g.costs form).steps ≤ .finite ps.length := by
  obtain ⟨last, hderives, hterminal, htext⟩ := h
  induction hderives with
  | nil form =>
      rw [costOfForm_terminal hterminal]
      exact Cost.le_refl _
  | cons step _ ih =>
      have hstep := costOfForm_step_le component_steps step
      have hrest := Cost.add_le_add (Cost.le_refl (.finite 1)) (ih hterminal htext)
      rw [Cost.finite_add, Nat.add_comm] at hrest
      exact Cost.le_trans hstep hrest

end FormalMachines.ContextFree.Grammar
