import FormalMachines.Proofs.ContextFree.Exact

/-!
# FormalMachines.Proofs.ContextFree.Verdicts

What the search that runs returns is right.

The search that runs has no result but that of the search whose sums never fail
(`eq_derive_of_attempt`), so what is known of the one is known of the other:

* `attempt_shortest` — without other limits than that of the steps it finds the first of the
  shortest derivations, if there is one of so many steps;
* `attempt_rejected` — a rejection is definitive, under whatever limits;
* `attempt_replays` — a derivation that is returned is one, and replays.

That a result is returned is part of the first, and needs numbers within the range: on a tower
that is too high the search fails, although a derivation of one step is there
(`attempt_shortest_tower`).
-/

namespace FormalMachines.ContextFree.Grammar

variable {g : Grammar} {target : Text} {budget : Budget} {cancel : Cancellation} {r : Result}

/-! ## The first of the shortest derivations -/

/-- **The search that runs is exhaustive.**  Without other limits than that of the steps it
returns a result, unless a number that it adds up is out of range, which none is that a search
of so many steps cannot come to.  Its result accepts a text exactly if there is a derivation of
so many steps, and then gives the first of the shortest; nor is any shorter that replaces
non-terminals in another order. -/
theorem attempt_shortest (hg : g.Valid) (target : Text) {budget : Budget}
    (hnodes : budget.nodes = none) :
    (g.ceiling (depthLimit budget) < Cost.range →
      ∃ r, g.attempt target budget .never = .ok r) ∧
    ((∃ r, g.attempt target budget .never = .ok r) ∨
      ∃ n, Cost.range ≤ n ∧ n ≤ g.ceiling (depthLimit budget) ∧
        g.attempt target budget .never = .error (.value (.outOfRange n))) ∧
    ∀ r, g.attempt target budget .never = .ok r →
      (r.outcome = .accepted ↔
        ∃ ps, g.Spells [g.start] ps target ∧ ps.length ≤ depthLimit budget) ∧
      (r.outcome = .accepted →
        ∃ ps, g.IsFirstShortest target ps ∧
          (∀ n last, g.Rewrites [g.start] n last → g.IsTerminal last → spell last = target →
            ps.length ≤ n) ∧
          r.depth = some ps.length ∧ r.derivation.filterMap (·.production) = ps) := by
  have hreckons := g.reckons_attempt hg target budget .never
  refine ⟨fun hceiling => ⟨_, hreckons.eq_ok hceiling⟩,
    hreckons.eq_ok_or.imp_left fun h => ⟨_, h⟩, fun r hr => ?_⟩
  rw [eq_derive_of_attempt hg hr]
  exact derive_shortest hg target hnodes

/-- A grammar with left recursion, an empty production and a cycle. -/
def pairs : Grammar where
  terminals := [.text "a", .text "ab"]
  nonTerminals := [.text "S", .text "T"]
  productions := [⟨"S", ["S", "S"]⟩, ⟨"S", ["T"]⟩, ⟨"T", ["S"]⟩, ⟨"S", ["a"]⟩, ⟨"T", ["ab"]⟩,
    ⟨"S", [epsilon]⟩]
  start := "S"

/-- A text of three code points has a derivation of four steps, so one of no more is
found. -/
theorem attempt_shortest_pairs :
    pairs.Valid ∧ ({} : Budget).nodes = none ∧ pairs.ceiling (depthLimit {}) < Cost.range ∧
      ∃ r, pairs.attempt "aab" {} .never = .ok r ∧ r.outcome = .accepted ∧
        ∃ ps, pairs.IsFirstShortest "aab" ps ∧ ps.length ≤ 4 ∧ r.depth = some ps.length ∧
          r.derivation.filterMap (·.production) = ps := by
  have hg : pairs.Valid := by decide +kernel
  have hceiling : pairs.ceiling (depthLimit {}) < Cost.range := by decide +kernel
  have hspells : pairs.Spells ["S"]
      [⟨"S", ["S", "S"]⟩, ⟨"S", ["a"]⟩, ⟨"S", ["T"]⟩, ⟨"T", ["ab"]⟩] "aab" := by
    refine ⟨["a", "ab"], .cons ⟨⟨[], "S", []⟩, rfl, ?_, rfl⟩ <|
      .cons ⟨⟨[], "S", ["S"]⟩, rfl, ?_, rfl⟩ <| .cons ⟨⟨["a"], "S", []⟩, rfl, ?_, rfl⟩ <|
      .cons ⟨⟨["a"], "T", []⟩, rfl, ?_, rfl⟩ <| .nil _, ?_, rfl⟩ <;> decide +kernel
  obtain ⟨hreturns, -, hright⟩ :=
    attempt_shortest hg "aab" (show ({} : Budget).nodes = none from rfl)
  obtain ⟨r, hr⟩ := hreturns hceiling
  obtain ⟨haccepts, hfirst⟩ := hright r hr
  have haccepted := haccepts.2 ⟨_, hspells, by decide⟩
  obtain ⟨ps, hps, _, hdepth, hproductions⟩ := hfirst haccepted
  exact ⟨hg, rfl, hceiling, r, hr, haccepted, ps, hps, (hps.2 _ hspells).1, hdepth, hproductions⟩

/-- The letter of a tower is derived in one step, but where the tower is too high the search
fails. -/
theorem attempt_shortest_tower :
    (tower ideograph 16 256).Valid ∧ ({} : Budget).nodes = none ∧
      (∃ ps, (tower ideograph 16 256).Spells ["S"] ps "a" ∧ ps.length = 1) ∧
      1 ≤ depthLimit {} ∧
      ∃ n, (tower ideograph 16 256).attempt "a" {} .never = .error (.value (.outOfRange n)) := by
  have h : Names ideograph 256 := names_ideograph (by decide)
  have hrange : Cost.range ≤ 16 ^ 256 := by decide +kernel
  have hg : (tower ideograph 16 256).Valid := valid_tower h
  have hmem : ⟨"S", ["a"]⟩ ∈ (tower ideograph 16 256).productions :=
    List.mem_append_left _ (List.mem_append_right _ (List.mem_singleton_self _))
  have hletter : (tower ideograph 16 256).Spells ["a"] [] "a" :=
    spells_terminal (not_isNonTerminal_letter h)
  obtain ⟨n, -, hattempt⟩ := attempt_tower h hrange "a" {} .never
  exact ⟨hg, rfl, ⟨_, Spells.cons hg hmem hletter, rfl⟩, by decide, n, hattempt⟩

/-! ## Rejections -/

/-- **A rejection is definitive.**  Whatever the limits, a text that the search that runs
rejects has no derivation of any length, leftmost or in another order. -/
theorem attempt_rejected (hg : g.Valid) (h : g.attempt target budget cancel = .ok r)
    (hrejected : r.outcome = .rejected) :
    ¬ g.Generates target ∧
      ∀ n last, g.Rewrites [g.start] n last → g.IsTerminal last → spell last ≠ target := by
  rw [eq_derive_of_attempt hg h] at hrejected
  exact derive_rejected hg hrejected

/-- Sums of one letter, with parentheses. -/
def sums : Grammar where
  terminals := [.text "a", .text "+", .text "(", .text ")"]
  nonTerminals := [.text "E", .text "T"]
  productions := [⟨"E", ["E", "+", "T"]⟩, ⟨"E", ["T"]⟩, ⟨"T", ["a"]⟩, ⟨"T", ["(", "E", ")"]⟩]
  start := "E"

/-- A parenthesis that is not closed is rejected, after three searches that were
truncated. -/
theorem attempt_rejected_sums :
    sums.Valid ∧
      (∃ r, sums.attempt "((a)" { depth := some 3 } .never = .ok r ∧
        r.outcome = .budgetExhausted) ∧
      (∃ r, sums.attempt "((a)" {} .never = .ok r ∧ r.outcome = .rejected) ∧
      ¬ sums.Generates "((a)" := by
  have hg : sums.Valid := by decide +kernel
  have hshallow : sums.ceiling (depthLimit { depth := some 3 }) < Cost.range := by decide +kernel
  have hceiling : sums.ceiling (depthLimit {}) < Cost.range := by decide +kernel
  have htruncated : (sums.derive "((a)" { depth := some 3 } .never).outcome = .budgetExhausted := by
    cbv
  have hrejected : (sums.derive "((a)" {} .never).outcome = .rejected := by cbv
  have hattempt := (reckons_attempt hg "((a)" {} .never).eq_ok hceiling
  exact ⟨hg, ⟨_, (reckons_attempt hg "((a)" { depth := some 3 } .never).eq_ok hshallow, htruncated⟩,
    ⟨_, hattempt, hrejected⟩, (attempt_rejected hg hattempt hrejected).1⟩

/-! ## Derivations -/

/-- **A derivation returned** under whatever limits is a leftmost derivation of the target: its
steps follow one another from the start symbol to a terminal form that spells the target,
as many as the reported depth, which is within the limit; and its replay yields that form. -/
theorem attempt_replays (hg : g.Valid) (h : g.attempt target budget cancel = .ok r)
    (hfound : r.canDerive) :
    ∃ last, g.Records r.derivation last ∧ g.IsTerminal last ∧ spell last = target ∧
      g.replay r.derivation = .ok last ∧
      ∃ n, r.depth = some n ∧ r.derivation.length = n + 1 ∧ n ≤ depthLimit budget := by
  obtain rfl := eq_derive_of_attempt hg h
  exact derive_replays hg hfound

/-- Lists of two-letter terminals, with a production that is written twice and one that is
empty. -/
def lists : Grammar where
  terminals := [.text "ab", .text ","]
  nonTerminals := [.text "L", .text "M"]
  productions := [⟨"L", ["ab", "M"]⟩, ⟨"M", [",", epsilon, "L"]⟩, ⟨"M", [",", epsilon, "L"]⟩,
    ⟨"M", [epsilon]⟩]
  start := "L"

theorem attempt_replays_lists :
    lists.Valid ∧
      ∃ r, lists.attempt "ab,ab" {} .never = .ok r ∧ r.canDerive ∧
        ∃ last, lists.Records r.derivation last ∧ lists.IsTerminal last ∧ spell last = "ab,ab" ∧
          lists.replay r.derivation = .ok last ∧
          ∃ n, r.depth = some n ∧ r.derivation.length = n + 1 ∧ n ≤ depthLimit {} := by
  have hg : lists.Valid := by decide +kernel
  have hceiling : lists.ceiling (depthLimit {}) < Cost.range := by decide +kernel
  have hfound : (lists.derive "ab,ab" {} .never).canDerive := by cbv
  have hattempt := (reckons_attempt hg "ab,ab" {} .never).eq_ok hceiling
  exact ⟨hg, _, hattempt, hfound, attempt_replays hg hattempt hfound⟩

end FormalMachines.ContextFree.Grammar
