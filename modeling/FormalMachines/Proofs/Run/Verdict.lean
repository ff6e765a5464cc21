import FormalMachines.Finite.Run
import FormalMachines.Proofs.Checks
import FormalMachines.Proofs.ContextFree.Attempt
import FormalMachines.Proofs.ContextFree.Search
import FormalMachines.Proofs.Pushdown.Recorded
import FormalMachines.Proofs.Run.Cut
import FormalMachines.Proofs.Safety
import FormalMachines.Turing.Run

/-!
# FormalMachines.Proofs.Run.Verdict

The verdict stands on the last step of a run and nowhere else.

A run *concludes* if its last step is marked as its outcome asks and the steps before it are
not marked at all (`Run.Concludes`).  A run *advances* through its input if each step splits
it in two and consumes no more than one code point after the step before
(`Run.Advances`).  Both are kept by one more step in front, and every end of a run marks its
last step, so they hold of all runs of the machines; for the search for a derivation what
counts as success is marked in four places that always agree (`ContextFree.Result.Agrees`).
The main result is `last_step_decides`.
-/

namespace FormalMachines

/-! ## Runs that conclude -/

namespace Run

variable {σ : Type} {plain closing : σ → Prop} {consumed remaining : σ → Text} {input : Text}
  {accepts : Bool} {outcome : Outcome} {r : Run σ} {s : σ}

/-- Whether a run has a last step that closes it, after steps that are plain. -/
def Concludes (plain closing : σ → Prop) (r : Run σ) : Prop :=
  ∃ front last, r.steps = front ++ [last] ∧ (∀ s ∈ front, plain s) ∧ closing last

theorem concludes_stop (h : closing s) : (stop s accepts outcome).Concludes plain closing :=
  ⟨[], s, rfl, nofun, h⟩

theorem Concludes.cons (h : r.Concludes plain closing) (hs : plain s) :
    (r.cons s).Concludes plain closing := by
  obtain ⟨front, last, hsteps, hplain, hlast⟩ := h
  refine ⟨s :: front, last, ?_, List.forall_mem_cons.2 ⟨hs, hplain⟩, hlast⟩
  rw [steps_cons, hsteps, List.cons_append]

/-- Whether the steps of a run go through an input, by no more than a code point at a time. -/
structure Advances (consumed remaining : σ → Text) (input : Text) (r : Run σ) : Prop where
  whole : ∀ s ∈ r.steps, consumed s ++ remaining s = input
  gradual : r.steps.IsChain fun s t =>
    consumed t = consumed s ∨ ∃ c, consumed t = consumed s ++ [c]

theorem advances_stop (h : consumed s ++ remaining s = input) :
    (stop s accepts outcome).Advances consumed remaining input where
  whole := by simpa using h
  gradual := List.isChain_singleton s

theorem Advances.cons (h : r.Advances consumed remaining input)
    (hs : consumed s ++ remaining s = input)
    (hnext : ∀ t ∈ r.steps.head?, consumed t = consumed s ∨ ∃ c, consumed t = consumed s ++ [c]) :
    (r.cons s).Advances consumed remaining input where
  whole := List.forall_mem_cons.2 ⟨hs, h.whole⟩
  gradual := List.isChain_cons.2 ⟨hnext, h.gradual⟩

/-- What a run on an input tells of its verdict: it accepts if its outcome says so, its last
step alone carries the verdict, and it advances through the input. -/
structure Judges (accepted : σ → Option Bool) (consumed remaining : σ → Text) (input : Text)
    (r : Run σ) : Prop where
  accepts : r.accepts ↔ r.outcome = .accepted
  verdict : r.Concludes (accepted · = none) (accepted · = some r.accepts)
  advances : r.Advances consumed remaining input

end Run

/-! ## Finite automata -/

namespace Finite

/-- What a run of a finite automaton tells of its verdict. -/
abbrev Judges (input : Text) (r : Run Step) : Prop :=
  r.Judges Step.accepted Step.consumed Step.remaining input

namespace Automaton

variable {a : Automaton}

theorem concludes_walk (a : Automaton) (m : Stepper) (cancel : Cancellation) (states : List Text)
    (consumed : Text) (via : List Transition) (looks : Nat) (rest : Text) :
    (a.walk m cancel states consumed via looks rest).Concludes (Step.accepted · = none)
      (Step.accepted · = some (a.walk m cancel states consumed via looks rest).accepts) := by
  fun_induction walk a m cancel states consumed via looks rest with
  | case1 => exact Run.concludes_stop rfl
  | case2 => exact Run.concludes_stop rfl
  | case3 =>
      refine Run.Concludes.cons ?_ rfl
      exact Run.concludes_stop rfl
  | case4 _ _ _ _ _ _ _ _ _ _ _ _ ih => exact ih.cons rfl

theorem consumed_head?_walk (a : Automaton) (m : Stepper) (cancel : Cancellation)
    (states : List Text) (consumed : Text) (via : List Transition) (looks : Nat) (rest : Text) :
    ∀ s ∈ (a.walk m cancel states consumed via looks rest).steps.head?, s.consumed = consumed := by
  fun_cases walk a m cancel states consumed via looks rest
  all_goals
    intro s hs
    cases hs
    rfl

theorem advances_walk (a : Automaton) (m : Stepper) (cancel : Cancellation) (states : List Text)
    (consumed : Text) (via : List Transition) (looks : Nat) (rest : Text) :
    (a.walk m cancel states consumed via looks rest).Advances Step.consumed Step.remaining
      (consumed ++ rest) := by
  fun_induction walk a m cancel states consumed via looks rest with
  | case1 => exact Run.advances_stop rfl
  | case2 => exact Run.advances_stop rfl
  | case3 =>
      refine Run.Advances.cons (Run.advances_stop rfl) rfl fun s hs => .inl ?_
      cases hs
      rfl
  | case4 states consumed via looks c rest here hcancel fired q more hland ih =>
      rw [List.append_assoc] at ih
      refine ih.cons rfl fun s hs => .inr ⟨c, ?_⟩
      exact a.consumed_head?_walk m cancel (q :: more) (consumed ++ [c]) fired _ rest s hs

/-- **A run of a finite automaton** has its verdict on its last step. -/
theorem judges_run (a : Automaton) (m : Stepper) (input : Text) (cancel : Cancellation) :
    Judges input (a.run m input cancel) where
  accepts := a.agrees_run m input cancel
  verdict := a.concludes_walk m cancel m.start [] [] 0 input
  advances := a.advances_walk m cancel m.start [] [] 0 input

/-- A run of a named kind is one of the two kinds. -/
theorem exists_stepper_of_simulate {mode epsilonMode : Json} {input : Text}
    {cancel : Cancellation} {r : Result} (h : a.simulate mode epsilonMode input cancel = .ok r) :
    ∃ m, r.run = a.run m input cancel := by
  obtain ⟨kind, -, h⟩ := bind_eq_ok h
  cases kind with
  | dfa => exact ⟨a.firstMove, congrArg Result.run (Except.ok.inj h).symm⟩
  | nfa =>
      obtain ⟨reading, -, h⟩ := bind_eq_ok h
      exact ⟨a.allMoves reading, congrArg Result.run (Except.ok.inj h).symm⟩

end Automaton

end Finite

/-! ## Pushdown automata -/

namespace Pushdown

/-- What a run of a pushdown automaton tells of its verdict. -/
abbrev Judges (input : Text) (r : Run Step) : Prop :=
  r.Judges Step.accepted Step.consumed Step.remaining input

variable {input : Text}

theorem Automaton.concludes_walk (a : Automaton) (input : Text) (cancel : Cancellation)
    (left fired : Nat) (c : Configuration) (via : Option Transition) :
    (a.walk input cancel left fired c via).Concludes (Step.accepted · = none)
      (Step.accepted · = some (a.walk input cancel left fired c via).accepts) := by
  fun_induction walk a input cancel left fired c via with
  | case1 => exact Run.concludes_stop rfl
  | case2 => exact Run.concludes_stop rfl
  | case3 => exact Run.concludes_stop rfl
  | case4 _ _ _ _ _ _ _ _ ih => exact ih.cons rfl

/-- The records of a path that stand in front of others carry no verdict. -/
theorem Path.exists_toList_recordBefore (input : Text) (p : Path) (rest : Trace Step) :
    ∃ front, (p.recordBefore input rest).toList = front ++ rest.toList ∧
      ∀ s ∈ front, s.accepted = none := by
  induction p generalizing rest with
  | start c => exact ⟨[c.record input 0 none none], rfl, by simp [Configuration.record]⟩
  | move before t c ih =>
      obtain ⟨front, hlist, hplain⟩ :=
        ih (.next (c.record input (before.length + 1) (some t) none) rest)
      refine ⟨front ++ [c.record input (before.length + 1) (some t) none], ?_, ?_⟩
      · rw [recordBefore, hlist, List.append_assoc]
        rfl
      · intro s hs
        obtain hs | hs := List.mem_append.1 hs
        · exact hplain s hs
        · rw [List.mem_singleton.1 hs]
          rfl

theorem Path.concludes_trace (input : Text) (p : Path) (verdict : Bool) (outcome : Outcome) :
    (⟨p.trace input verdict, verdict, outcome⟩ : Run Step).Concludes (Step.accepted · = none)
      (Step.accepted · = some verdict) := by
  cases p with
  | start c => exact Run.concludes_stop rfl
  | move before t c =>
      obtain ⟨front, hlist, hplain⟩ := before.exists_toList_recordBefore input
        (.last (c.record input (before.length + 1) (some t) (some verdict)))
      exact ⟨front, _, hlist, hplain, rfl⟩

theorem Search.concludes_failure (s : Search) (outcome : Outcome) :
    (s.failure input outcome).Concludes (Step.accepted · = none)
      (Step.accepted · = some (s.failure input outcome).accepts) :=
  s.furthest.concludes_trace input false outcome

theorem Search.concludes_resume (a : Automaton) (input : Text) (limit : Nat)
    (cancel : Cancellation) (left expanded : Nat) (s : Search) :
    (resume a input limit cancel left expanded s).Concludes (Step.accepted · = none)
      (Step.accepted · = some (resume a input limit cancel left expanded s).accepts) := by
  fun_induction resume a input limit cancel left expanded s with
  | case1 left expanded s => exact s.concludes_failure _
  | case2 left expanded s => exact s.concludes_failure .cancelled
  | case3 left expanded s p => exact p.concludes_trace input true .accepted
  | case4 => exact Search.concludes_failure _ .budgetExhausted
  | case5 _ _ _ _ _ _ _ _ _ ih => exact ih

/-! The steps of either kind of run are records of moves, which consume a code point or
none. -/

theorem take_position_fire (input : Text) (c : Configuration) (t : Transition) :
    input.take (c.fire t).position = input.take c.position ∨
      ∃ ch, input.take (c.fire t).position = input.take c.position ++ [ch] := by
  rw [Configuration.fire]
  by_cases ht : t.isEpsilon
  · simp [ht]
  · cases hnext : input[c.position]? with
    | none => exact .inl (by simp [ht, List.take_add_one, hnext])
    | some ch => exact .inr ⟨ch, by simp [ht, List.take_add_one, hnext]⟩

theorem whole_recordRun (input : Text) (verdict : Option Bool) (n : Nat) (c : Configuration)
    (via : Option Transition) (moves : List Transition) :
    ∀ s ∈ recordRun input verdict n c via moves, s.consumed ++ s.remaining = input := by
  have hrecord : ∀ n (c : Configuration) via verdict,
      (c.record input n via verdict).consumed ++ (c.record input n via verdict).remaining = input :=
    fun _ c _ _ => List.take_append_drop c.position input
  induction moves generalizing n c via with
  | nil => exact fun s hs => List.mem_singleton.1 hs ▸ hrecord n c via verdict
  | cons t moves ih => exact List.forall_mem_cons.2 ⟨hrecord n c via none, ih _ _ _⟩

theorem gradual_recordRun (input : Text) (verdict : Option Bool) (n : Nat) (c : Configuration)
    (via : Option Transition) (moves : List Transition) :
    (recordRun input verdict n c via moves).IsChain fun s t =>
      t.consumed = s.consumed ∨ ∃ ch, t.consumed = s.consumed ++ [ch] := by
  induction moves generalizing n c via with
  | nil => exact List.isChain_singleton _
  | cons t moves ih =>
      refine List.isChain_cons.2 ⟨fun s hs => ?_, ih _ _ _⟩
      obtain ⟨verdict', rest, hrest⟩ :=
        exists_recordRun_eq_cons input verdict (n + 1) (c.fire t) (some t) moves
      rw [hrest] at hs
      cases hs
      exact take_position_fire input c t

/-- **A run of a pushdown automaton** of either kind has its verdict on its last step. -/
theorem Automaton.judges_runIn (a : Automaton) (mode : Mode) (input : Text) (budget : Budget)
    (cancel : Cancellation) : Judges input (a.runIn mode input budget cancel).run where
  accepts := by
    cases mode with
    | firstMatch => exact a.agrees_walk input cancel _ 0 a.initial none
    | search => exact Search.agrees_resume a input _ cancel _ 0 (.initial a)
  verdict := by
    cases mode with
    | firstMatch => exact a.concludes_walk input cancel _ 0 a.initial none
    | search => exact Search.concludes_resume a input _ cancel _ 0 (.initial a)
  advances := by
    obtain ⟨moves, d, verdict, -, hsteps⟩ := a.exists_recordRun mode input budget cancel
    constructor
    · rw [hsteps]
      exact whole_recordRun input _ 0 a.initial none moves
    · rw [hsteps]
      exact gradual_recordRun input _ 0 a.initial none moves

end Pushdown

/-! ## Turing machines -/

/-- The flags, for having accepted and for having rejected, that an outcome puts on the last
step of a run of a Turing machine. -/
def Outcome.flags : Outcome → Option Bool × Option Bool
  | .accepted => (some true, none)
  | .rejected => (none, some true)
  | .budgetExhausted => (some false, some false)
  | .cancelled => (some false, some false)

namespace Turing

/-- What a run of a Turing machine tells of its verdict. -/
structure Judges (r : Run Step) : Prop where
  accepts : r.accepts ↔ r.outcome = .accepted
  rejects : rejects r ↔ r.outcome = .rejected
  verdict : r.Concludes (fun s => s.accepted = none ∧ s.rejected = none)
    fun s => (s.accepted, s.rejected) = r.outcome.flags

theorem Machine.concludes_walk (m : Machine) (cancel : Cancellation) (left taken : Nat)
    (c : Configuration) (via : Option Transition) :
    (m.walk cancel left taken c via).Concludes (fun s => s.accepted = none ∧ s.rejected = none)
      fun s => (s.accepted, s.rejected) = (m.walk cancel left taken c via).outcome.flags := by
  fun_induction walk m cancel left taken c via with
  | case1 => exact Run.concludes_stop rfl
  | case2 => exact Run.concludes_stop rfl
  | case3 => exact Run.concludes_stop rfl
  | case4 => exact Run.concludes_stop rfl
  | case5 =>
      refine Run.Concludes.cons ?_ ⟨rfl, rfl⟩
      exact Run.concludes_stop rfl
  | case6 _ _ _ _ _ _ _ _ _ ih => exact ih.cons ⟨rfl, rfl⟩

/-- **A run of a Turing machine** has its verdict on its last step. -/
theorem Machine.judges_run (m : Machine) (input : Text) (budget : Budget)
    (cancel : Cancellation) : Judges (m.run input budget cancel) where
  accepts := m.agrees_walk cancel _ 0 (m.initial input) none
  rejects := decide_eq_true_iff
  verdict := m.concludes_walk cancel _ 0 (m.initial input) none

end Turing

/-! ## All of them -/

/-- **The last step of a run decides, and no other does.**  A run of a finite automaton, of
either kind or as a mode names it, and a run of a pushdown automaton of either kind accepts
exactly if its outcome says so; its last step says whether it does, no step before it says
anything, and its steps split the input and consume at most one code point at a time.  A run
of a Turing machine accepts or rejects exactly if its outcome says so; the flags of its last
step, which are both down where it was stopped, say which, and no step before it has any.  A
search for a derivation gives one, and its depth, exactly if its outcome is success. -/
theorem last_step_decides :
    (∀ (a : Finite.Automaton) (input : Text) (cancel : Cancellation),
      Finite.Judges input (a.runDfa input cancel).run ∧
      (∀ mode, Finite.Judges input (a.runNfa mode input cancel).run) ∧
      ∀ mode epsilonMode r, a.simulate mode epsilonMode input cancel = .ok r →
        Finite.Judges input r.run) ∧
    (∀ (a : Pushdown.Automaton) (input : Text) (budget : Budget) (cancel : Cancellation),
      (∀ mode, Pushdown.Judges input (a.runIn mode input budget cancel).run) ∧
      ∀ mode r, a.simulate mode input budget cancel = .ok r → Pushdown.Judges input r.run) ∧
    (∀ (m : Turing.Machine) (input : Text) (budget : Budget) (cancel : Cancellation),
      Turing.Judges (m.run input budget cancel)) ∧
    ∀ (g : ContextFree.Grammar) (target : Text) (budget : Budget) (cancel : Cancellation),
      (g.derive target budget cancel).Agrees ∧
      (g.Valid → ∀ r, g.attempt target budget cancel = .ok r → r.Agrees) := by
  refine ⟨fun a input cancel => ⟨?_, fun mode => ?_, fun mode epsilonMode r hr => ?_⟩,
    fun a input budget cancel => ⟨fun mode => ?_, fun mode r hr => ?_⟩,
    fun m input budget cancel => ?_, fun g target budget cancel => ⟨?_, fun hg r hr => ?_⟩⟩
  · exact a.judges_run a.firstMove input cancel
  · exact a.judges_run (a.allMoves mode) input cancel
  · obtain ⟨m, hm⟩ := Finite.Automaton.exists_stepper_of_simulate hr
    rw [hm]
    exact a.judges_run m input cancel
  · exact a.judges_runIn mode input budget cancel
  · obtain ⟨kind, -, hr⟩ := bind_eq_ok hr
    rw [← Except.ok.inj hr]
    exact a.judges_runIn kind input budget cancel
  · exact m.judges_run input budget cancel
  · exact g.agrees_derive target budget cancel
  · rw [ContextFree.Grammar.eq_derive_of_attempt hg hr]
    exact g.agrees_derive target budget cancel

/-- Runs of what one definition is read as. -/
theorem last_step_decides_fourfold :
    (∃ a, Finite.Automaton.ofJson fourfold = .ok a ∧
      a.simulate (.text "NFA") (.text "closure") "a" .never = .ok (a.runNfa .closure "a" .never) ∧
      Finite.Judges "a" (a.runNfa .closure "a" .never).run) ∧
    (∃ a, Pushdown.Automaton.ofJson fourfold = .ok a ∧
      a.simulate (.text "search") "a" {} .never = .ok (a.runIn .search "a" {} .never) ∧
      Pushdown.Judges "a" (a.runIn .search "a" {} .never).run) ∧
    fourfoldGrammar.Valid ∧
    fourfoldGrammar.attempt "aa" {} .never = .ok (fourfoldGrammar.derive "aa" {} .never) ∧
    (fourfoldGrammar.derive "aa" {} .never).Agrees := by
  obtain ⟨hfinite, hpushdown, -, hgrammar⟩ := last_step_decides
  obtain ⟨a, ha⟩ : ∃ a, Finite.Automaton.ofJson fourfold = .ok a := ⟨_, rfl⟩
  obtain ⟨b, hb⟩ : ∃ b, Pushdown.Automaton.ofJson fourfold = .ok b := ⟨_, rfl⟩
  have hrun : a.simulate (.text "NFA") (.text "closure") "a" .never =
      .ok (a.runNfa .closure "a" .never) := by rfl
  have hsearch : b.simulate (.text "search") "a" {} .never =
      .ok (b.runIn .search "a" {} .never) := by rfl
  have hvalid : fourfoldGrammar.Valid := by decide +kernel
  have hceiling : fourfoldGrammar.ceiling (ContextFree.depthLimit {}) < ContextFree.Cost.range := by
    decide +kernel
  have hattempt := (fourfoldGrammar.reckons_attempt hvalid "aa" {} .never).eq_ok hceiling
  exact ⟨⟨a, ha, hrun, (hfinite a "a" .never).2.2 _ _ _ hrun⟩,
    ⟨b, hb, hsearch, (hpushdown b "a" {} .never).2 _ _ hsearch⟩, hvalid, hattempt,
    (hgrammar fourfoldGrammar "aa" {} .never).2 hvalid _ hattempt⟩

end FormalMachines
