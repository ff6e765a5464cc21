import FormalMachines.Proofs.ContextFree.Reckoning
import FormalMachines.Proofs.ContextFree.Replay

/-!
# FormalMachines.Proofs.ContextFree.Attempt

The search that runs is the search, but for numbers out of range.

A step replaces a non-terminal, which weighs one, by a right side, which weighs no more than
the grammar is wide.  So a form that a search looks at weighs little more than the steps
that led to it, and what its costs add up to is bounded by the limit on the steps.
-/

namespace FormalMachines.ContextFree

namespace Grammar

variable {g : Grammar} {form : Form} {l : Leftmost} {p : Production} {symbol : Text}

/-- Every declared non-terminal has its productions in the table. -/
theorem entryOf_productionTable (h : g.isNonTerminal symbol) :
    entryOf g.productionTable symbol = .ok (g.productionsFor symbol) := by
  have hmem : symbol ∈ g.nonTerminals.filterMap Atom.text? :=
    List.mem_filterMap.2 ⟨.text symbol, of_decide_eq_true h, rfl⟩
  unfold entryOf productionTable
  generalize g.nonTerminals.filterMap Atom.text? = symbols at hmem ⊢
  induction symbols with
  | nil => exact absurd hmem List.not_mem_nil
  | cons s symbols ih =>
      rw [List.map_cons, List.lookup_cons]
      by_cases hs : symbol = s
      · rw [hs, beq_self_eq_true]
      · rw [beq_eq_false_iff_ne.2 hs]
        exact ih ((List.mem_cons.1 hmem).resolve_left hs)

/-- A step adds no more weight than the grammar is wide. -/
theorem weight_replace_le (hl : g.leftmost? form = some l) (hp : p ∈ g.productionsFor l.symbol) :
    g.weight (l.replace p.symbols) ≤ g.weight form + g.width := by
  have hwidth := weight_le_width (mem_productionsFor.1 hp).1
  rw [← (form_of_leftmost? hl).1, Leftmost.form, Leftmost.replace, weight_append, weight_append,
    weight_append, weight_cons]
  omega

end Grammar

namespace Search

variable {goal : Goal} {bound limit remaining : Nat} {form : Form} {l : Leftmost}

/-! ## One form -/

/-- The costs of a form are added up if it is light enough. -/
theorem reckons_weigh (hcovers : goal.costs.Covers goal.grammar bound) (hbound : 1 ≤ bound)
    (hle : goal.grammar.weight form * bound ≤ limit) : Reckons limit () (weigh goal form) := by
  have hzero : Costs.AtMost .zero 0 := ⟨Nat.le_refl 0, Nat.le_refl 0⟩
  unfold weigh
  split
  · exact (Grammar.reckons_addUp hcovers hbound hzero (by rwa [Nat.zero_add])).bind .ok
  · exact .ok

theorem reckons_attemptLook (hcovers : goal.costs.Covers goal.grammar bound) (hbound : 1 ≤ bound)
    (hle : goal.grammar.weight form * bound ≤ limit) (remaining : Nat) (s : Search) :
    Reckons limit (look goal remaining form s) (attemptLook goal remaining form s) := by
  unfold look attemptLook
  by_cases hcancel : goal.cancel.raisedAt s.nodes
  · simp only [hcancel, if_true]
    exact .ok
  · by_cases hnodes : goal.nodeLimit.any (· < s.nodes + 1)
    · simp only [hcancel, hnodes, Bool.false_eq_true, if_false, if_true]
      exact .ok
    · simp only [hcancel, hnodes, Bool.false_eq_true, if_false]
      exact (reckons_weigh hcovers hbound hle).bind .ok

/-! ## All forms -/

theorem reckons_attemptEach {go : Form → Search → Answer × Search}
    {go' : Form → Search → Except Fault (Answer × Search)} {ps : List Production}
    (hgo : ∀ p ∈ ps, ∀ s, Reckons limit (go (l.replace p.symbols) s) (go' (l.replace p.symbols) s))
    (truncated : Bool) (s : Search) :
    Reckons limit (tryEach go l ps truncated s) (attemptEach go' l ps truncated s) := by
  induction ps generalizing truncated s with
  | nil => exact .ok
  | cons p rest ih =>
      rw [tryEach, attemptEach]
      refine (hgo p (by simp) s).bind ?_
      generalize go (l.replace p.symbols) s = result
      obtain ⟨answer, s'⟩ := result
      cases answer with
      | found path => exact .ok
      | failed t => exact ih (fun q hq => hgo q (by simp [hq])) (truncated || t) s'
      | stopped outcome => exact .ok

/-- **A search from a form** is reckoned, if the form is light enough for the steps left. -/
theorem reckons_attemptExpand (hcovers : goal.costs.Covers goal.grammar bound) (hbound : 1 ≤ bound)
    {weight : Nat} (hlimit : weight * bound ≤ limit)
    (hweight : goal.grammar.weight form + remaining * goal.grammar.width ≤ weight) (s : Search) :
    Reckons limit (expand goal remaining form s)
      (attemptExpand goal goal.grammar.productionTable remaining form s) := by
  induction remaining generalizing form s with
  | zero =>
      rw [expand, attemptExpand]
      refine (reckons_attemptLook hcovers hbound
        (Nat.le_trans (Nat.mul_le_mul_right _ (by omega)) hlimit) 0 s).bind ?_
      generalize look goal 0 form s = result
      obtain ⟨_ | _, s'⟩ := result <;> exact .ok
  | succ remaining ih =>
      rw [Nat.succ_mul] at hweight
      rw [expand, attemptExpand]
      refine (reckons_attemptLook hcovers hbound
        (Nat.le_trans (Nat.mul_le_mul_right _ (by omega)) hlimit) (remaining + 1) s).bind ?_
      cases hlook : look goal (remaining + 1) form s with
      | mk seen s' =>
          cases seen with
          | answer a => exact .ok
          | branch l =>
              have hl : goal.grammar.leftmost? form = some l :=
                leftmost?_of_look (s := s) (by rw [hlook])
              have hentry : Reckons limit (goal.grammar.productionsFor l.symbol)
                  (entryOf goal.grammar.productionTable l.symbol) := by
                rw [Grammar.entryOf_productionTable (Grammar.form_of_leftmost? hl).2.1]
                exact .ok
              dsimp only
              refine hentry.bind ?_
              have heach : ∀ p ∈ goal.grammar.productionsFor l.symbol, ∀ s,
                  Reckons limit (expand goal remaining (l.replace p.symbols) s)
                    (attemptExpand goal goal.grammar.productionTable remaining
                      (l.replace p.symbols) s) := by
                intro p hp s
                have hreplace := Grammar.weight_replace_le hl hp
                exact ih (by omega) s
              refine (reckons_attemptEach heach false s').bind ?_
              generalize tryEach (expand goal remaining) l _ false s' = result
              obtain ⟨_ | _ | _, s''⟩ := result <;> exact .ok

end Search

/-! ## Deepening -/

/-- A deepening search is reckoned, if the start symbol is light enough for the last depth. -/
theorem reckons_attemptDeepen {goal : Goal} {bound limit weight : Nat}
    (hcovers : goal.costs.Covers goal.grammar bound) (hbound : 1 ≤ bound)
    (hlimit : weight * bound ≤ limit) {left depth : Nat}
    (hweight : goal.grammar.weight [goal.grammar.start] + (depth + left) * goal.grammar.width ≤
      weight + goal.grammar.width) (s : Search) :
    Reckons limit (deepen goal left depth s)
      (attemptDeepen goal goal.grammar.productionTable left depth s) := by
  induction left generalizing depth s with
  | zero => exact .ok
  | succ left ih =>
      have hdepth : goal.grammar.weight [goal.grammar.start] + depth * goal.grammar.width ≤
          weight := by
        have hadd : (depth + (left + 1)) * goal.grammar.width =
            depth * goal.grammar.width + left * goal.grammar.width + goal.grammar.width := by ring
        omega
      rw [deepen, attemptDeepen]
      refine (Search.reckons_attemptExpand hcovers hbound hlimit hdepth s).bind ?_
      generalize s.expand goal depth [goal.grammar.start] = result
      obtain ⟨_ | (_ | _) | _, s'⟩ := result
      · exact .ok
      · exact .ok
      · refine ih ?_ s'
        rwa [show depth + 1 + left = depth + (left + 1) by omega]
      · exact .ok

namespace Grammar

variable {g : Grammar}

/-- A bound on every number that a search of so many steps adds up. -/
def ceiling (g : Grammar) (depth : Nat) : Nat :=
  (depth + 1) * (g.width + 1) ^ (g.nonTerminals.length + 1)

theorem ceiling_eq (g : Grammar) (depth : Nat) :
    g.ceiling depth = (depth + 1) * ((g.width + 1) * g.costBound) := by
  rw [ceiling, costBound, Nat.pow_succ, Nat.mul_comm (_ ^ _)]

/-- The sums that lower the costs of the non-terminals are within that bound. -/
theorem lowering_le_ceiling (g : Grammar) (depth : Nat) :
    1 + g.width * g.costBound ≤ g.ceiling depth :=
  calc 1 + g.width * g.costBound
      ≤ g.costBound + g.width * g.costBound := Nat.add_le_add_right g.one_le_costBound _
    _ = 1 * ((g.width + 1) * g.costBound) := by ring
    _ ≤ (depth + 1) * ((g.width + 1) * g.costBound) := Nat.mul_le_mul_right _ (Nat.succ_pos _)
    _ = g.ceiling depth := (g.ceiling_eq depth).symm

/-- **The search that runs** gives the result of the search, or fails for a number that is out
of range and that a search of so many steps can come to. -/
theorem reckons_attempt (hg : g.Valid) (target : Text) (budget : Budget) (cancel : Cancellation) :
    Reckons (g.ceiling (depthLimit budget)) (g.derive target budget cancel)
      (g.attempt target budget cancel) := by
  have hstart : g.weight [g.start] = 1 := by
    have hstart : g.isNonTerminal g.start := decide_eq_true hg.2.2.1
    simp [weight, weightOf, hstart]
  apply (reckons_attemptCosts hg (g.lowering_le_ceiling _)).bind
  have hlimit : (depthLimit budget + 1) * (g.width + 1) * g.costBound ≤
      g.ceiling (depthLimit budget) := by rw [ceiling_eq, Nat.mul_assoc]
  refine reckons_attemptDeepen (covers_costs g) g.one_le_costBound hlimit ?_ .initial
  change g.weight [g.start] + (1 + depthLimit budget) * g.width ≤ _
  rw [hstart]
  calc 1 + (1 + depthLimit budget) * g.width
      ≤ (depthLimit budget + 1) + (1 + depthLimit budget) * g.width + g.width := by omega
    _ = (depthLimit budget + 1) * (g.width + 1) + g.width := by ring

/-- A result that is returned is that of the search. -/
theorem eq_derive_of_attempt (hg : g.Valid) {target : Text} {budget : Budget}
    {cancel : Cancellation} {r : Result} (h : g.attempt target budget cancel = .ok r) :
    r = g.derive target budget cancel :=
  (g.reckons_attempt hg target budget cancel).eq_of_ok h

end Grammar

end FormalMachines.ContextFree
