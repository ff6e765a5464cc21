import FormalMachines.Proofs.ContextFree.Leftmost
import FormalMachines.Proofs.ContextFree.Search
import Mathlib

/-!
# FormalMachines.Proofs.ContextFree.Shortest

A derivation found is the first of the shortest ones.

The search deepens one step at a time, so every derivation has at least as many steps as
the next search allows; that is what `deepen_right` carries from one to the next.  A
search without limits then answers exactly as one over all derivations would
(`derive_shortest`), and a text that any search rejects has no derivation at all
(`derive_rejected`).
-/

namespace FormalMachines.ContextFree

/-- The productions of a numbered path are those of the path. -/
theorem productions_numberSteps (n : Nat) (path : List Applied) :
    (numberSteps n path).filterMap (·.production) = path.map (·.production) := by
  induction path generalizing n with
  | nil => rfl
  | cons a path ih => simp [numberSteps, ih]

namespace Grammar

theorem productions_derivationOf (g : Grammar) (path : List Applied) :
    (g.derivationOf path).filterMap (·.production) = path.map (·.production) := by
  simp [derivationOf, productions_numberSteps]

/-- Whether productions derive a text, as the first of the shortest to do so. -/
def IsFirstShortest (g : Grammar) (text : Text) (ps : List Production) : Prop :=
  g.Spells [g.start] ps text ∧
    ∀ qs, g.Spells [g.start] qs text →
      ps.length ≤ qs.length ∧ (qs.length = ps.length → g.Precedes ps qs)

end Grammar

/-- Whether the result of a search of so many steps is right. -/
def Result.Right (goal : Goal) (limit : Nat) (r : Result) : Prop :=
  match r.outcome with
  | .accepted => ∃ ps, goal.grammar.IsFirstShortest goal.target ps ∧ ps.length ≤ limit ∧
      r.depth = some ps.length ∧ r.derivation.filterMap (·.production) = ps
  | .rejected => ∀ qs, ¬ goal.grammar.Spells [goal.grammar.start] qs goal.target
  | .budgetExhausted => goal.Limited ∨
      ∀ qs, goal.grammar.Spells [goal.grammar.start] qs goal.target → limit < qs.length
  | .cancelled => goal.Limited

/-- A deepening search is right if all derivations have as many steps as it starts with. -/
theorem deepen_right {goal : Goal} (hcosts : goal.costs = goal.grammar.costs) {limit : Nat}
    (left depth : Nat) (hlimit : depth + left = limit + 1) {s : Search}
    (hs : s.Reliable goal)
    (hlater : ∀ qs, goal.grammar.Spells [goal.grammar.start] qs goal.target →
      depth ≤ qs.length) :
    (deepen goal left depth s).Right goal limit := by
  induction left generalizing depth s with
  | zero =>
      refine Or.inr fun qs hqs => ?_
      have hle := hlater qs hqs
      omega
  | succ left ih =>
      obtain ⟨hright, hs'⟩ := Search.expand_right hcosts hs depth [goal.grammar.start]
      rw [deepen]
      generalize s.expand goal depth [goal.grammar.start] = result at hright hs' ⊢
      obtain ⟨answer, s'⟩ := result
      cases answer with
      | found path =>
          obtain ⟨hspells, hshort, hfirst⟩ := hright
          have hlength : path.length = depth :=
            Nat.le_antisymm hshort (by simpa using hlater _ hspells)
          refine ⟨path.map (·.production), ⟨hspells, fun qs hqs => ⟨?_, fun heq => ?_⟩⟩, ?_, ?_, ?_⟩
          · rw [List.length_map, hlength]
            exact hlater qs hqs
          · exact hfirst qs hqs (by rw [heq, List.length_map]; exact hshort)
          · rw [List.length_map]
            omega
          · rw [List.length_map, hlength]
            rfl
          · exact goal.grammar.productions_derivationOf path
      | failed truncated =>
          cases truncated with
          | false => exact fun qs hqs => absurd (hright qs hqs).1 Bool.false_ne_true
          | true => exact ih (depth + 1) (by omega) hs' fun qs hqs => (hright qs hqs).2
      | stopped outcome =>
          obtain ⟨hlimited, hcancelled | hexhausted⟩ := hright
          · rw [hcancelled]
            exact hlimited
          · rw [hexhausted]
            exact Or.inl hlimited

/-! ## Where success is reported -/

/-- Whether all that a search for a derivation reports agrees on whether it found one. -/
structure Result.Agrees (r : Result) : Prop where
  canDerive : r.canDerive ↔ r.outcome = .accepted
  derivation : r.derivation ≠ [] ↔ r.outcome = .accepted
  depth : r.depth ≠ none ↔ r.outcome = .accepted

theorem Result.agrees_without {outcome : Outcome} (h : outcome ≠ .accepted) (s : Search) :
    (Result.without outcome s).Agrees where
  canDerive := iff_of_false Bool.false_ne_true h
  derivation := iff_of_false (not_not_intro rfl) h
  depth := iff_of_false (not_not_intro rfl) h

theorem Result.agrees_found {derivation : List DerivationStep} (h : derivation ≠ []) (depth : Nat)
    (s : Search) : (Result.found derivation depth s).Agrees where
  canDerive := iff_of_true rfl rfl
  derivation := iff_of_true h rfl
  depth := iff_of_true (Option.some_ne_none depth) rfl

/-- A search that deepens agrees: where it is stopped that is no success. -/
theorem agrees_deepen {goal : Goal} (hcosts : goal.costs = goal.grammar.costs) (left depth : Nat)
    {s : Search} (hs : s.Reliable goal) : (deepen goal left depth s).Agrees := by
  induction left generalizing depth s with
  | zero => exact Result.agrees_without (by decide) s
  | succ left ih =>
      obtain ⟨hright, hs'⟩ := Search.expand_right hcosts hs depth [goal.grammar.start]
      rw [deepen]
      generalize s.expand goal depth [goal.grammar.start] = result at hright hs' ⊢
      obtain ⟨answer, s'⟩ := result
      cases answer with
      | found path => exact Result.agrees_found (List.cons_ne_nil _ _) depth s'
      | failed truncated =>
          cases truncated with
          | false => exact Result.agrees_without (by decide) s'
          | true => exact ih (depth + 1) hs'
      | stopped outcome =>
          refine Result.agrees_without ?_ s'
          obtain rfl | rfl := hright.2 <;> decide

namespace Grammar

variable {g : Grammar}

/-- **The search for a derivation** reports success in all places or in none. -/
theorem agrees_derive (g : Grammar) (target : Text) (budget : Budget) (cancel : Cancellation) :
    (g.derive target budget cancel).Agrees :=
  agrees_deepen rfl _ 1 (Search.reliable_initial _)

/-- A derivation from the start symbol has a step. -/
theorem length_pos_of_spells (hstart : g.isNonTerminal g.start) {ps : List Production}
    {text : Text} (h : g.Spells [g.start] ps text) : 1 ≤ ps.length := by
  have hl : g.leftmost? [g.start] = some ⟨[], g.start, []⟩ := by simp [leftmost?, hstart]
  obtain ⟨p, _, rest, hcons, _⟩ := (spells_leftmost_iff hl).1 h
  rw [hcons]
  exact Nat.succ_pos _

/-- The search for a derivation is right, under whatever limits. -/
theorem derive_right (hg : g.Valid) (target : Text) (budget : Budget) (cancel : Cancellation) :
    (g.derive target budget cancel).Right ⟨g, target, g.costs, budget.nodes, cancel⟩
      (depthLimit budget) :=
  deepen_right rfl _ 1 (Nat.add_comm _ _) (Search.reliable_initial _) fun _ hqs =>
    length_pos_of_spells (decide_eq_true hg.2.2.1) hqs

/-- **The search is exhaustive.**  Without other limits than that of the steps it accepts a
text exactly if there is a derivation of so many steps, and then finds the first of the
shortest; nor is any shorter that replaces non-terminals in another order. -/
theorem derive_shortest (hg : g.Valid) (target : Text) {budget : Budget}
    (hnodes : budget.nodes = none) :
    ((g.derive target budget .never).outcome = .accepted ↔
      ∃ ps, g.Spells [g.start] ps target ∧ ps.length ≤ depthLimit budget) ∧
    ((g.derive target budget .never).outcome = .accepted →
      ∃ ps, g.IsFirstShortest target ps ∧
        (∀ n last, g.Rewrites [g.start] n last → g.IsTerminal last → spell last = target →
          ps.length ≤ n) ∧
        (g.derive target budget .never).depth = some ps.length ∧
        (g.derive target budget .never).derivation.filterMap (·.production) = ps) := by
  have hright := g.derive_right hg target budget .never
  have hfree : ¬ Goal.Limited ⟨g, target, g.costs, budget.nodes, .never⟩ := by
    simp [Goal.Limited, hnodes]
  generalize g.derive target budget .never = r at hright ⊢
  rw [Result.Right] at hright
  cases houtcome : r.outcome with
  | accepted =>
      rw [houtcome] at hright
      obtain ⟨ps, hfirst, hshort, hdepth, hproductions⟩ := hright
      refine ⟨⟨fun _ => ⟨ps, hfirst.1, hshort⟩, fun _ => rfl⟩,
        fun _ => ⟨ps, hfirst, fun n last hrewrites hterminal hspell => ?_, hdepth, hproductions⟩⟩
      obtain ⟨qs, hlength, hderives⟩ := exists_derives_of_rewrites hg hrewrites hterminal
      rw [← hlength]
      exact (hfirst.2 qs ⟨last, hderives, hterminal, hspell⟩).1
  | rejected =>
      rw [houtcome] at hright
      refine ⟨⟨nofun, fun ⟨ps, hps, _⟩ => absurd hps (hright ps)⟩, nofun⟩
  | budgetExhausted =>
      rw [houtcome] at hright
      have hlong := hright.resolve_left hfree
      exact ⟨⟨nofun, fun ⟨ps, hps, hle⟩ => absurd hle (Nat.not_le.2 (hlong ps hps))⟩, nofun⟩
  | cancelled =>
      rw [houtcome] at hright
      exact absurd hright hfree

/-- **A rejection is definitive.**  Whatever the limits, a text that the search rejects has
no derivation of any length, leftmost or in another order. -/
theorem derive_rejected (hg : g.Valid) {target : Text} {budget : Budget} {cancel : Cancellation}
    (h : (g.derive target budget cancel).outcome = .rejected) :
    ¬ g.Generates target ∧
      ∀ n last, g.Rewrites [g.start] n last → g.IsTerminal last → spell last ≠ target := by
  have hnone := g.derive_right hg target budget cancel
  rw [Result.Right, h] at hnone
  refine ⟨fun ⟨ps, hps⟩ => hnone ps hps, fun n last hrewrites hterminal hspell => ?_⟩
  obtain ⟨ps, _, hderives⟩ := exists_derives_of_rewrites hg hrewrites hterminal
  exact hnone ps ⟨last, hderives, hterminal, hspell⟩

end Grammar

end FormalMachines.ContextFree
