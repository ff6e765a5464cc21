import FormalMachines.Proofs.Pushdown.Recorded

/-!
# FormalMachines.Proofs.Pushdown.FirstMatch

The run that never looks back against the search.

Where such a run accepts it has gone along an accepting run, and has recorded it
(`exists_recordRun_walk`).  The search misses no accepting run within its limits, so it does
not reject what the other run accepts (`runIn_firstMatch_search`).
-/

namespace FormalMachines.Pushdown

/-- The moves that a run fired. -/
def movesOf (r : Run Step) : List Transition := r.steps.filterMap (·.fired)

/-- The moves of a record are those that were recorded. -/
theorem filterMap_fired_recordRun (input : Text) (verdict : Option Bool) (n : Nat)
    (c : Configuration) (via : Option Transition) (moves : List Transition) :
    (recordRun input verdict n c via moves).filterMap (·.fired) = via.toList ++ moves := by
  induction moves generalizing n c via with
  | nil => cases via <;> rfl
  | cons t moves ih =>
      rw [recordRun, List.filterMap_cons, ih]
      cases via <;> rfl

namespace Automaton

variable {a : Automaton} {input : Text}

/-- What a search answers. -/
theorem answers_runSearchCounted (a : Automaton) (input : Text) (budget : Budget) :
    Search.Answers a input (stepLimit budget) (nodeLimit budget)
      (a.runSearchCounted input budget .never) := by
  have h := Search.answers_resumeCounted (nodeLimit budget) 0 [] (.initial a)
    (Search.invariant_initial a input (stepLimit budget))
  rw [Nat.zero_add] at h
  exact h

/-- A run that never looks back accepts within its step limit only if some run does with the
moves that it fired. -/
theorem acceptsWithin_of_runFirstMatch {budget : Budget}
    (h : (a.runFirstMatch input budget .never).outcome = .accepted) :
    a.AcceptsWithin input (movesOf (a.runFirstMatch input budget .never)).length ∧
      (movesOf (a.runFirstMatch input budget .never)).length ≤ stepLimit budget := by
  obtain ⟨moves, d, verdict, hruns, hlen, hsteps, haccepted⟩ :=
    a.exists_recordRun_walk input .never (stepLimit budget) 0 a.initial none
  have hmoves : movesOf (a.runFirstMatch input budget .never) = moves := by
    rw [movesOf, runFirstMatch, hsteps, filterMap_fired_recordRun]
    rfl
  rw [hmoves]
  exact ⟨⟨d, moves.length, Nat.le_refl _, ⟨moves, hruns, rfl⟩, (haccepted h).2⟩, hlen⟩

/-- **The two kinds of run.**  If the run that never looks back accepts, then the search with
as many steps accepts with no more moves, or has spent its nodes.  If the search rejects,
the run that never looks back accepts within no limits. -/
theorem runIn_firstMatch_search (a : Automaton) (input : Text) {direct wide : Budget}
    (hsteps : stepLimit direct ≤ stepLimit wide) :
    let r := (a.runIn .firstMatch input direct .never).run
    let s := (a.runIn .search input wide .never).run
    (r.outcome = .accepted →
      (s.outcome = .accepted ∧ (movesOf s).length ≤ (movesOf r).length) ∨
      (s.outcome = .budgetExhausted ∧
        (a.runSearchCounted input wide .never).2 = nodeLimit wide)) ∧
    (s.outcome = .rejected →
      ∀ budget, (a.runIn .firstMatch input budget .never).run.outcome ≠ .accepted) := by
  intro r s
  have hanswers := a.answers_runSearchCounted input wide
  have hs : (a.runSearchCounted input wide .never).1 = s := a.fst_runSearchCounted input wide .never
  constructor
  · intro haccepted
    obtain ⟨hwithin, hlen⟩ := acceptsWithin_of_runFirstMatch haccepted
    have hlimit : a.AcceptsWithin input (stepLimit wide) := by
      obtain ⟨d, n, hn, hreaches, haccepting⟩ := hwithin
      exact ⟨d, n, Nat.le_trans hn (Nat.le_trans hlen hsteps), hreaches, haccepting⟩
    obtain hfound | hspent := hanswers.found hlimit
    · obtain ⟨p, hrun, _, htrace, _, hshortest⟩ := hanswers.accepted hfound
      rw [hs] at hfound htrace
      have hmoves : movesOf s = p.moves := by
        rw [movesOf, Run.steps, htrace, hrun.toList_trace, filterMap_fired_recordRun]
        rfl
      rw [hmoves, Path.length_moves]
      exact .inl ⟨hfound, hshortest _ hwithin⟩
    · rw [hs] at hspent
      exact .inr hspent
  · intro hrejected budget haccepted
    rw [← hs] at hrejected
    exact hanswers.rejected hrejected _ (acceptsWithin_of_runFirstMatch haccepted).1

/-- An automaton that accepts after one move and can go on without reading. -/
def wayfarer : Automaton where
  states := [.text "p", .text "q", .text "r"]
  inputAlphabet := [.text "a"]
  stackAlphabet := [.text "Z"]
  transitions := [⟨"p", "a", epsilon, "q", [epsilon]⟩, ⟨"q", epsilon, "Z", "r", []⟩]
  start := "p"
  initialSymbol := "Z"
  accepting := [.text "q", .text "r"]

theorem runIn_firstMatch_search_wayfarer :
    wayfarer.Valid ∧ stepLimit .unlimited ≤ stepLimit .unlimited ∧
      (wayfarer.runIn .firstMatch "a" .unlimited .never).run.outcome = .accepted ∧
      (movesOf (wayfarer.runIn .firstMatch "a" .unlimited .never).run).length = 2 ∧
      (((wayfarer.runIn .search "a" .unlimited .never).run.outcome = .accepted ∧
          (movesOf (wayfarer.runIn .search "a" .unlimited .never).run).length ≤ 2) ∨
        ((wayfarer.runIn .search "a" .unlimited .never).run.outcome = .budgetExhausted ∧
          (wayfarer.runSearchCounted "a" .unlimited .never).2 = nodeLimit .unlimited)) ∧
      (wayfarer.runIn .search "b" .unlimited .never).run.outcome = .rejected ∧
      ∀ budget, (wayfarer.runIn .firstMatch "b" budget .never).run.outcome ≠ .accepted := by
  have hsteps : stepLimit .unlimited ≤ stepLimit .unlimited := Nat.le_refl _
  have haccepted : (wayfarer.runIn .firstMatch "a" .unlimited .never).run.outcome = .accepted := by
    decide +kernel
  have hmoves : (movesOf (wayfarer.runIn .firstMatch "a" .unlimited .never).run).length = 2 := by
    decide +kernel
  have hrejected : (wayfarer.runIn .search "b" .unlimited .never).run.outcome = .rejected := by
    decide +kernel
  have hfound := (wayfarer.runIn_firstMatch_search "a" hsteps).1 haccepted
  rw [hmoves] at hfound
  exact ⟨by decide +kernel, hsteps, haccepted, hmoves, hfound, hrejected,
    (wayfarer.runIn_firstMatch_search "b" hsteps).2 hrejected⟩

end Automaton

end FormalMachines.Pushdown
