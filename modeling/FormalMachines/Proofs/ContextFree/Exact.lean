import FormalMachines.Proofs.ContextFree.Leftmost
import FormalMachines.Proofs.ContextFree.Tower

/-!
# FormalMachines.Proofs.ContextFree.Exact

The costs of the non-terminals are exact.

The costs bound the derivations of a form from below (`yield_le_of_spells`,
`steps_le_of_spells`).  They are also reached:

1. a table is *achieved* if every finite cost in it is what some derivation spends
   (`Achieved`);
2. the first table holds no finite cost, and a production adds its step to derivations of
   its symbols, so lowering by it keeps a table achieved (`Achieved.relax`);
3. derivations of the symbols of a form make one of the form (`Achieved.achieves_costOfForm`).

So the costs of a form are the length of the shortest text and the fewest steps of any
derivation, in any order (`exact_costOfForm`).  The run that works the costs out finds them
or fails for a number out of range (`attemptCosts_exact`).
-/

namespace FormalMachines.ContextFree

/-! ## Least numbers -/

namespace Cost

/-- Whether a cost is the least of some numbers, infinite if there is none. -/
def LeastOf (c : Cost) (p : Nat → Prop) : Prop :=
  match c with
  | .finite n => p n ∧ ∀ m, p m → n ≤ m
  | .infinite => ∀ m, ¬ p m

variable {c d : Cost} {p : Nat → Prop}

/-- The least number is one of the numbers, and none is less. -/
theorem leastOf_iff : c.LeastOf p ↔ (∀ n, c = .finite n → p n) ∧ ∀ m, p m → c ≤ .finite m := by
  cases c <;> simp [LeastOf]

theorem LeastOf.eq_infinite_iff (h : c.LeastOf p) : c = .infinite ↔ ∀ m, ¬ p m := by
  cases c with
  | finite n => simpa using ⟨n, h.1⟩
  | infinite => simpa [LeastOf] using h

theorem add_ne_infinite_iff : c + d ≠ .infinite ↔ c ≠ .infinite ∧ d ≠ .infinite := by
  cases c <;> cases d <;> simp

end Cost

/-! ## Derivations of texts -/

namespace Grammar

/-- Whether so many productions, each applied in any place, lead from a form to a terminal
one that spells a text. -/
def Produces (g : Grammar) (form : Form) (steps : Nat) (text : Text) : Prop :=
  ∃ last, g.Rewrites form steps last ∧ g.IsTerminal last ∧ spell last = text

variable {g : Grammar} {form back : Form} {p : Production} {ps qs : List Production}
  {x y text : Text}

theorem produces_iff (hg : g.Valid) {n : Nat} :
    g.Produces form n text ↔ ∃ ps, g.Spells form ps text ∧ ps.length = n := by
  constructor
  · intro ⟨last, hrewrites, hterminal, htext⟩
    obtain ⟨ps, hlength, hderives⟩ := exists_derives_of_rewrites hg hrewrites hterminal
    exact ⟨ps, ⟨last, hderives, hterminal, htext⟩, hlength⟩
  · intro ⟨ps, ⟨last, hderives, hterminal, htext⟩, hlength⟩
    exact ⟨last, hlength ▸ hderives.rewrites, hterminal, htext⟩

theorem Spells.append (hx : g.Spells form ps x) (hy : g.Spells back qs y) :
    g.Spells (form ++ back) (ps ++ qs) (x ++ y) := by
  obtain ⟨u, hu, huterminal, rfl⟩ := hx
  obtain ⟨v, hv, hvterminal, rfl⟩ := hy
  refine ⟨u ++ v, hu.append huterminal hv, fun s hs => ?_, spell_append u v⟩
  obtain hs | hs := List.mem_append.1 hs
  · exact huterminal s hs
  · exact hvterminal s hs

theorem Spells.cons (hg : g.Valid) (hp : p ∈ g.productions) (h : g.Spells p.symbols ps text) :
    g.Spells [p.left] (p :: ps) text := by
  obtain ⟨last, hderives, hterminal, htext⟩ := h
  exact ⟨last, .cons (step_left hg hp) hderives, hterminal, htext⟩

theorem spells_terminal {s : Text} (hs : ¬ g.isNonTerminal s) : g.Spells [s] [] s :=
  ⟨[s], .nil [s], by simpa [IsTerminal] using hs, by simp [spell]⟩

end Grammar

/-! ## What a derivation spends -/

/-- What a derivation spends: the length of its text and the number of its steps. -/
def Costs.spent (ps : List Production) (text : Text) : Costs :=
  ⟨.finite text.length, .finite ps.length⟩

theorem Costs.spent_append (ps qs : List Production) (x y : Text) :
    spent (ps ++ qs) (x ++ y) = spent ps x + spent qs y := by
  change _ = Costs.mk (.finite x.length + .finite y.length) (.finite ps.length + .finite qs.length)
  simp [spent]

/-- A component of which a production takes as much from a derivation that starts with it as
it adds to the costs of its right side. -/
structure Spending (part : Costs → Cost) (extra : Cost) : Prop where
  component : Component part extra
  cons : ∀ p ps text, part (.spent (p :: ps) text) = extra + part (.spent ps text)

theorem spending_yield : Spending Costs.yield 0 :=
  ⟨component_yield, fun _ _ _ => (Cost.zero_add _).symm⟩

theorem spending_steps : Spending Costs.steps (.finite 1) :=
  ⟨component_steps, fun _ _ _ => by simp [Costs.spent, Nat.add_comm]⟩

namespace Grammar

variable {g : Grammar} {part : Costs → Cost} {extra : Cost} {table : CostTable} {form : Form}
  {p : Production}

/-- Whether some derivation of a form spends a cost, unless it is infinite. -/
def Achieves (g : Grammar) (part : Costs → Cost) (form : Form) (c : Cost) : Prop :=
  c ≠ .infinite → ∃ ps text, g.Spells form ps text ∧ part (.spent ps text) = c

/-- Whether all costs of a table are those of derivations. -/
def Achieved (g : Grammar) (part : Costs → Cost) (table : CostTable) : Prop :=
  ∀ s, g.isNonTerminal s → g.Achieves part [s] (part (table.get s))

/-- The costs of a form are those of a derivation if the costs of its non-terminals are. -/
theorem Achieved.achieves_costOfForm (hpart : Component part extra) (h : g.Achieved part table)
    (form : Form) : g.Achieves part form (part (g.costOfForm table form)) := by
  induction form with
  | nil => exact fun _ => ⟨[], [], ⟨[], .nil [], by simp [IsTerminal], rfl⟩, rfl⟩
  | cons s form ih =>
      rw [costOfForm_cons, hpart.add]
      intro hfinite
      obtain ⟨hs, hform⟩ := Cost.add_ne_infinite_iff.1 hfinite
      obtain ⟨qs, y, hy, hycost⟩ := ih hform
      have hfirst : ∃ ps x, g.Spells [s] ps x ∧ part (.spent ps x) = part (g.costOf table s) := by
        unfold costOf at hs ⊢
        by_cases hnonterminal : g.isNonTerminal s
        · rw [if_pos hnonterminal] at hs ⊢
          exact h s hnonterminal hs
        · rw [if_neg hnonterminal]
          exact ⟨[], s, spells_terminal hnonterminal, rfl⟩
      obtain ⟨ps, x, hx, hxcost⟩ := hfirst
      exact ⟨ps ++ qs, x ++ y, hx.append hy, by rw [Costs.spent_append, hpart.add, hxcost, hycost]⟩

/-- Lowering by a production keeps costs those of derivations: where it takes effect, a
derivation of its symbols gets its step in front. -/
theorem Achieved.relax (hg : g.Valid) (hpart : Spending part extra) (h : g.Achieved part table)
    (hp : p ∈ g.productions) : g.Achieved part (g.relax table p) := by
  intro s hs hfinite
  obtain hsame | ⟨rfl, -, hcost⟩ := relax_cases hpart.component g table p s
  · rw [hsame] at hfinite ⊢
    exact h s hs hfinite
  · rw [hcost, hpart.component.production] at hfinite ⊢
    obtain ⟨ps, text, hspells, hspent⟩ :=
      h.achieves_costOfForm hpart.component p.symbols (Cost.add_ne_infinite_iff.1 hfinite).2
    exact ⟨p :: ps, text, hspells.cons hg hp, by rw [hpart.cons, hspent]⟩

theorem Achieved.foldl_relax (hg : g.Valid) (hpart : Spending part extra)
    (h : g.Achieved part table) {ps : List Production} (hps : ps ⊆ g.productions) :
    g.Achieved part (ps.foldl g.relax table) := by
  induction ps generalizing table with
  | nil => exact h
  | cons p ps ih =>
      rw [List.foldl_cons]
      exact ih (h.relax hg hpart (hps (by simp))) fun q hq => hps (by simp [hq])

/-- **The costs** are those of derivations. -/
theorem achieved_costs (hg : g.Valid) (hpart : Spending part extra) : g.Achieved part g.costs := by
  obtain ⟨n, heq, -⟩ := g.settle_eq_sweeps (g.nonTerminals.length + 1) g.initialCosts
  rw [costs, heq]
  clear heq
  induction n with
  | zero =>
      intro s _ hfinite
      simp [sweeps, get_initialCosts, hpart.component.infinite] at hfinite
  | succ n ih => exact ih.foldl_relax hg hpart fun _ hp => hp

end Grammar

/-! ## Exactness -/

/-- Whether costs are those of a form: the length of the shortest text it derives, and the
fewest steps in which it derives any. -/
structure Costs.ExactFor (c : Costs) (g : Grammar) (form : Form) : Prop where
  yield : c.yield.LeastOf fun n => ∃ steps text, g.Produces form steps text ∧ text.length = n
  steps : c.steps.LeastOf fun n => ∃ text, g.Produces form n text

namespace Grammar

variable {g : Grammar}

/-- **The costs of a form** are exact. -/
theorem exact_costOfForm (hg : g.Valid) (form : Form) :
    (g.costOfForm g.costs form).ExactFor g form := by
  constructor
  · refine Cost.leastOf_iff.2 ⟨fun n hn => ?_, fun n hn => ?_⟩
    · obtain ⟨ps, text, hspells, hspent⟩ :=
        (achieved_costs hg spending_yield).achieves_costOfForm component_yield form (by simp [hn])
      exact ⟨ps.length, text, (produces_iff hg).2 ⟨ps, hspells, rfl⟩,
        Cost.finite.inj (hspent.trans hn)⟩
    · obtain ⟨steps, text, hproduces, rfl⟩ := hn
      obtain ⟨ps, hspells, -⟩ := (produces_iff hg).1 hproduces
      exact yield_le_of_spells hspells
  · refine Cost.leastOf_iff.2 ⟨fun n hn => ?_, fun n hn => ?_⟩
    · obtain ⟨ps, text, hspells, hspent⟩ :=
        (achieved_costs hg spending_steps).achieves_costOfForm component_steps form (by simp [hn])
      exact ⟨text, (produces_iff hg).2 ⟨ps, hspells, Cost.finite.inj (hspent.trans hn)⟩⟩
    · obtain ⟨text, hproduces⟩ := hn
      obtain ⟨ps, hspells, rfl⟩ := (produces_iff hg).1 hproduces
      exact steps_le_of_spells hspells

/-- The entry of a non-terminal is what the form costs that it is alone. -/
theorem exists_entryOf_costs {s : Text} (hs : g.isNonTerminal s) :
    entryOf g.costs s = .ok (g.costOfForm g.costs [s]) := by
  obtain ⟨c, hlookup, -⟩ := covers_costs g s hs
  have hcost : g.costOf g.costs s = c := by simp [costOf, hs, CostTable.get, hlookup]
  have hnil : g.costOfForm g.costs [] = .zero := rfl
  rw [costOfForm_cons, hcost, hnil, Costs.add_zero, entryOf, hlookup]

/-- **The costs are exact.**  The run that works them out finds them, or fails for a number
that is out of range, for which it takes a wide right side or many non-terminals.  The table
has an entry for every non-terminal; the entry is exact, and infinite where no text is
derived.  The sum over a form fails in the same way only, and is exact too. -/
theorem attemptCosts_exact (hg : g.Valid) :
    (g.ceiling 0 < Cost.range → g.attemptCosts = .ok g.costs) ∧
    (g.attemptCosts = .ok g.costs ∨ ∃ n, Cost.range ≤ n ∧ n ≤ g.ceiling 0 ∧
      g.attemptCosts = .error (.value (.outOfRange n))) ∧
    (∀ s, g.isNonTerminal s → ∃ c, entryOf g.costs s = .ok c ∧ c.ExactFor g [s] ∧
      (c.yield = .infinite ↔ ∀ steps text, ¬ g.Produces [s] steps text) ∧
      (c.steps = .infinite ↔ ∀ steps text, ¬ g.Produces [s] steps text)) ∧
    ∀ form, (g.costOfForm g.costs form).ExactFor g form ∧
      (g.addUp g.costs .zero form = .ok (g.costOfForm g.costs form) ∨
        ∃ n, Cost.range ≤ n ∧ n ≤ g.weight form * g.costBound ∧
          g.addUp g.costs .zero form = .error (.value (.outOfRange n))) := by
  have hreckons := reckons_attemptCosts hg (g.lowering_le_ceiling 0)
  refine ⟨hreckons.eq_ok, hreckons.eq_ok_or, fun s hs => ?_, fun form => ?_⟩
  · have hexact := exact_costOfForm hg [s]
    refine ⟨_, exists_entryOf_costs hs, hexact, ?_, ?_⟩
    · rw [hexact.yield.eq_infinite_iff]
      grind
    · rw [hexact.steps.eq_infinite_iff]
      grind
  · have hzero : Costs.zero.AtMost 0 := ⟨Nat.le_refl 0, Nat.le_refl 0⟩
    have hsum := reckons_addUp (covers_costs g) g.one_le_costBound hzero
      (Nat.le_of_eq (Nat.zero_add (g.weight form * g.costBound)))
    have hform : Costs.zero + g.costOfForm g.costs form = g.costOfForm g.costs form := by
      change Costs.mk (0 + _) (0 + _) = _
      rw [Cost.zero_add, Cost.zero_add]
    rw [hform] at hsum
    exact ⟨exact_costOfForm hg form, hsum.eq_ok_or⟩

/-- A grammar in which the shortest text takes more steps than another, and a non-terminal
derives none. -/
def thrifty : Grammar where
  terminals := [.text "a", .text "aaaa"]
  nonTerminals := [.text "S", .text "T", .text "U"]
  productions := [⟨"S", ["aaaa"]⟩, ⟨"S", ["T", "T"]⟩, ⟨"U", ["U", "a"]⟩, ⟨"T", ["U"]⟩, ⟨"T", ["a"]⟩]
  start := "S"

/-- Its costs. -/
def thriftyCosts : CostTable :=
  [("S", ⟨.finite 2, .finite 1⟩), ("T", ⟨.finite 1, .finite 1⟩), ("U", .infinite)]

theorem attemptCosts_exact_thrifty :
    thrifty.Valid ∧ thrifty.ceiling 0 < Cost.range ∧ thrifty.attemptCosts = .ok thriftyCosts ∧
      Costs.ExactFor ⟨.finite 2, .finite 1⟩ thrifty ["S"] ∧
      (∀ steps text, ¬ thrifty.Produces ["U"] steps text) ∧
      Costs.ExactFor ⟨.finite 4, .finite 2⟩ thrifty ["S", "a", "T"] ∧
      thrifty.addUp thriftyCosts .zero ["S", "a", "T"] = .ok ⟨.finite 4, .finite 2⟩ := by
  have hg : thrifty.Valid := by decide +kernel
  have hceiling : thrifty.ceiling 0 < Cost.range := by decide +kernel
  have hcosts : thrifty.costs = thriftyCosts := by decide +kernel
  obtain ⟨hattempt, -, hentries, hforms⟩ := attemptCosts_exact hg
  obtain ⟨c, hc, hS, -⟩ := hentries "S" (by decide +kernel)
  obtain ⟨d, hd, -, hU, -⟩ := hentries "U" (by decide +kernel)
  have hsum := (hforms ["S", "a", "T"]).1
  rw [hcosts] at hc hd hattempt hsum
  obtain rfl : _ = c := Except.ok.inj hc
  obtain rfl : _ = d := Except.ok.inj hd
  exact ⟨hg, hceiling, hattempt hceiling, hS, hU.1 rfl, hsum, rfl⟩

/-- **Costs that are not found**: on 256 floors of 16 copies the run fails, although the start
symbol derives a letter in one step. -/
theorem attemptCosts_tower_of_ideographs :
    (tower ideograph 16 256).Valid ∧ (tower ideograph 16 256).Produces ["S"] 1 "a" ∧
      ∃ n, (tower ideograph 16 256).attemptCosts = .error (.value (.outOfRange n)) := by
  have h : Names ideograph 256 := names_ideograph (by decide)
  have hg : (tower ideograph 16 256).Valid := valid_tower h
  have hmem : (⟨"S", ["a"]⟩ : Production) ∈ (tower ideograph 16 256).productions := by
    simp [productions_tower, belowTop]
  have hspells : (tower ideograph 16 256).Spells ["a"] [] "a" :=
    spells_terminal (not_isNonTerminal_letter h)
  have hproduces : (tower ideograph 16 256).Spells ["S"] [⟨"S", ["a"]⟩] "a" := hspells.cons hg hmem
  refine ⟨hg, (produces_iff hg).2 ⟨_, hproduces, rfl⟩, ?_⟩
  obtain hok | ⟨n, -, -, herror⟩ := (reckons_attemptCosts hg (Nat.le_refl _)).eq_ok_or
  · exact absurd hok (attemptCosts_tower_ne_ok h (by decide +kernel) _)
  · exact ⟨n, herror⟩

end Grammar

end FormalMachines.ContextFree
