import FormalMachines.Proofs.Pushdown.Search
import FormalMachines.Pushdown.Report

/-!
# FormalMachines.Proofs.Pushdown.Recorded

Every run, of either kind and however it ends, is recorded as a run (`exists_recordRun`).

The run that never looks back fires moves that its configuration allows
(`allows_of_choose?`).  The paths that a search keeps are runs all along (`Search.Kept`), and
it records one of them.
-/

namespace FormalMachines.Pushdown

namespace Automaton

variable {a : Automaton} {input : Text} {c : Configuration} {t : Transition}

/-! ## The moves of a run -/

/-- The first move with a label is a move; it is allowed if the label can be read. -/
theorem allows_of_firstMove? {label : Text} (h : a.firstMove? c label = some t)
    (hlabel : label = epsilon ∨ input[c.position]?.map ([·]) = some label) :
    t ∈ a.transitions ∧ c.allows input t := by
  have hadmits : c.admits label t := List.find?_some h
  have hinput : t.input = label := by
    simp only [Configuration.admits, Bool.and_eq_true, decide_eq_true_eq] at hadmits
    exact hadmits.1.2
  subst hinput
  refine ⟨List.mem_of_find?_eq_some h, ?_⟩
  simp only [Configuration.allows, Transition.isEpsilon, hadmits, Bool.true_and,
    Bool.or_eq_true, decide_eq_true_eq]
  exact hlabel

/-- **The move that a run fires** is one that its configuration allows. -/
theorem allows_of_choose? (h : a.choose? input c = some t) :
    t ∈ a.transitions ∧ c.allows input t := by
  rw [choose?] at h
  cases hnext : input[c.position]? with
  | none =>
      rw [hnext] at h
      exact allows_of_firstMove? h (.inl rfl)
  | some ch =>
      rw [hnext] at h
      cases hread : a.firstMove? c [ch] with
      | none =>
          simp only [hread] at h
          exact allows_of_firstMove? h (.inl rfl)
      | some u =>
          simp only [hread] at h
          obtain rfl : u = t := Option.some.inj h
          exact allows_of_firstMove? hread (.inr (by rw [hnext]; rfl))

/-- **A run that never looks back** records the moves that it fires; where it accepts they
lead to an accepting configuration. -/
theorem exists_recordRun_walk (a : Automaton) (input : Text) (cancel : Cancellation)
    (left fired : Nat) (c : Configuration) (via : Option Transition) :
    ∃ moves d verdict, a.Runs input c moves d ∧ moves.length ≤ left ∧
      (a.walk input cancel left fired c via).steps =
        recordRun input (some verdict) fired c via moves ∧
      ((a.walk input cancel left fired c via).outcome = .accepted →
        verdict = true ∧ a.isAccepting input d) := by
  fun_induction walk a input cancel left fired c via with
  | case1 left fired c via here hcancel =>
      exact ⟨[], c, false, .nil c, Nat.zero_le _, rfl,
        fun h => Outcome.noConfusion h⟩
  | case2 left fired c via here hcancel hchoose =>
      exact ⟨[], c, a.isAccepting input c, .nil c, Nat.zero_le _, rfl, fun h => by
        simpa using Outcome.ofVerdict_eq_accepted_iff.1 h⟩
  | case3 fired c via here hcancel t hchoose =>
      exact ⟨[], c, false, .nil c, Nat.zero_le _, rfl,
        fun h => Outcome.noConfusion h⟩
  | case4 fired c via here hcancel t hchoose more ih =>
      obtain ⟨moves, d, verdict, hruns, hlen, hsteps, haccepted⟩ := ih
      obtain ⟨hmem, hallows⟩ := allows_of_choose? hchoose
      refine ⟨t :: moves, d, verdict, .cons hmem hallows hruns, Nat.succ_le_succ hlen, ?_,
        haccepted⟩
      rw [recordRun, ← hsteps]
      rfl

end Automaton

/-! ## The paths of a search -/

namespace Search

variable {a : Automaton} {input : Text} {limit : Nat} {s : Search} {p : Path}

/-- Whether all paths that a search keeps are runs. -/
structure Kept (a : Automaton) (input : Text) (s : Search) : Prop where
  pending : ∀ p ∈ s.pending.toList, p.IsRun a input
  furthest : s.furthest.IsRun a input

theorem kept_initial (a : Automaton) (input : Text) : Kept a input (.initial a) where
  pending p hp := by
    have hp : p = .start a.initial := by simpa [initial, Queue.toList] using hp
    rw [hp]
    rfl
  furthest := rfl

theorem Kept.expand (h : Kept a input s) (hp : p.IsRun a input) (limit : Nat) :
    Kept a input (s.expand a input limit p) := by
  obtain ⟨fresh, hexpands⟩ := expands_expand a input limit p s
  refine ⟨fun q hq => ?_, furthest_expand a input limit p s ▸ h.furthest⟩
  rw [hexpands.pending] at hq
  obtain hq | hq := List.mem_append.1 hq
  · exact h.pending q hq
  · exact (hexpands.isRun hp hq).1

/-- A search that takes its first path and notes it keeps runs. -/
theorem Kept.take (h : Kept a input s) {rest : Queue} (hpop : s.pending.pop? = some (p, rest)) :
    p.IsRun a input ∧ Kept a input (noteFurthest p { s with pending := rest }) := by
  have hlist := Queue.toList_of_pop? hpop
  have hp : p.IsRun a input := h.pending p (by simp [hlist])
  refine ⟨hp, fun q hq => ?_, ?_⟩
  · rw [pending_noteFurthest] at hq
    exact h.pending q (by simp [hlist, hq])
  · rw [furthest_noteFurthest]
    split
    · exact hp
    · exact h.furthest

/-- **A search** records one of its runs. -/
theorem Kept.exists_trace (h : Kept a input s) (limit : Nat) (cancel : Cancellation)
    (left expanded : Nat) :
    ∃ (p : Path) (verdict : Bool), p.IsRun a input ∧
      (resume a input limit cancel left expanded s).trace = p.trace input verdict := by
  fun_induction resume a input limit cancel left expanded s with
  | case1 => exact ⟨_, false, h.furthest, rfl⟩
  | case2 => exact ⟨_, false, h.furthest, rfl⟩
  | case3 left expanded s p rest hpop => exact ⟨p, true, (h.take hpop).1, rfl⟩
  | case4 expanded s p rest hpop => exact ⟨_, false, (h.take hpop).2.furthest, rfl⟩
  | case5 expanded s p rest hpop hcancel hrefused next more ih =>
      obtain ⟨hp, hkept⟩ := h.take hpop
      exact ih (hkept.expand hp limit)

end Search

/-! ## Both kinds of run -/

/-- **Every run is recorded as a run** from the start, whatever its kind, its limits and
whether it is cancelled. -/
theorem Automaton.exists_recordRun (a : Automaton) (mode : Mode) (input : Text)
    (budget : Budget) (cancel : Cancellation) :
    ∃ moves d verdict, a.Runs input a.initial moves d ∧
      (a.runIn mode input budget cancel).run.steps =
        recordRun input (some verdict) 0 a.initial none moves := by
  cases mode with
  | firstMatch =>
      obtain ⟨moves, d, verdict, hruns, -, hsteps, -⟩ :=
        a.exists_recordRun_walk input cancel (stepLimit budget) 0 a.initial none
      exact ⟨moves, d, verdict, hruns, hsteps⟩
  | search =>
      obtain ⟨p, verdict, hrun, htrace⟩ := (Search.kept_initial a input).exists_trace
        (stepLimit budget) cancel (nodeLimit budget) 0
      exact ⟨p.moves, p.final, verdict, hrun.runs,
        (congrArg Trace.toList htrace).trans (hrun.toList_trace verdict)⟩

end FormalMachines.Pushdown
