import FormalMachines.Proofs.Turing.Contents
import FormalMachines.Turing.Report

/-!
# FormalMachines.Proofs.Turing.Simulation

A run of a Turing machine and the run of the same machine on a tape without ends.

A run lays its tape out as far as it needs it.  Moving left past the first cell puts one in
front, which moves all the others, so the tape shows the ideal one at an offset: the number of
cells put in front so far (`growths`).  Firing a transition keeps what a configuration shows
(`Configuration.Shows.fire`), hence every recorded step shows the ideal configuration after as
many moves (`walk_recorded`), and where the run ends the ideal one has ended as well or the
limit is reached (`walk_ends`).  The outcome says which of these it is (`run_follows_ideal`).
-/

namespace FormalMachines.Turing

/-! ## One move -/

/-- Whether a configuration is an ideal one with so many cells laid out in front of cell
zero. -/
structure Configuration.Shows (blank : Text) (offset : Nat) (c : Configuration)
    (ideal : IdealConfiguration) : Prop where
  state : c.state = ideal.state
  tape : c.tape.Shows blank offset ideal.tape

/-- The number of cells that a transition puts in front of the tape. -/
def Configuration.growth (c : Configuration) (t : Transition) : Nat :=
  if t.direction = .left ∧ c.tape.position = 0 then 1 else 0

namespace Configuration

variable {m : Machine} {input : Text} {offset : Nat} {c : Configuration} {t : Transition}
  {ideal : IdealConfiguration}

theorem shows_initial (m : Machine) (input : Text) :
    (m.initial input).Shows m.blank 0 (m.idealInitial input) :=
  ⟨rfl, Tape.shows_ofInput m.blank input⟩

/-- A transition does the same to a configuration and to the ideal one that it shows. -/
theorem Shows.fire (h : c.Shows m.blank offset ideal) (t : Transition) :
    (m.fire c t).Shows m.blank (offset + c.growth t) (Machine.idealFire ideal t) where
  state := rfl
  tape := by
    have hwritten := Tape.shows_write t.write h.tape
    have hposition : (c.tape.write t.write).position = c.tape.position := rfl
    cases hdirection : t.direction with
    | left =>
      have hoffset : (if c.tape.position = 0 then (offset : Int) + 1 else offset) =
          ((offset + c.growth t : Nat) : Int) := by
        simp only [growth, hdirection, true_and]
        split <;> rfl
      have hmoved := Tape.shows_moveLeft hwritten
      rw [hposition, hoffset] at hmoved
      simpa only [Machine.fire, Machine.idealFire, Direction.move, hdirection] using hmoved
    | right =>
      have hoffset : offset + c.growth t = offset := by simp [growth, hdirection]
      have hmoved := Tape.shows_moveRight hwritten
      simpa only [Machine.fire, Machine.idealFire, Direction.move, hdirection, hoffset] using hmoved

/-- Where a configuration does not halt, the ideal run moves by the transition for its state
and its symbol. -/
theorem Shows.idealNext? (h : c.Shows m.blank offset ideal) (hhalts : m.halts c.state = false) :
    m.idealNext? ideal =
      (m.transition? c.state c.tape.head).map (Machine.idealFire ideal) := by
  rw [Machine.idealNext?, ← h.state, hhalts, h.tape.read_eq]
  rfl

theorem Shows.idealAfter?_succ {moves : Nat} (h : c.Shows m.blank offset ideal)
    (hafter : m.idealAfter? input moves = some ideal) (hhalts : m.halts c.state = false)
    (ht : m.transition? c.state c.tape.head = some t) :
    m.idealAfter? input (moves + 1) = some (Machine.idealFire ideal t) := by
  rw [Machine.idealAfter?, hafter, Option.bind_some, h.idealNext? hhalts, ht, Option.map_some]

/-- Whether a configuration is an ideal one as far as its tape is laid out, with so many cells
in front of cell zero. -/
structure Covers (blank : Text) (offset : Nat) (c : Configuration) (ideal : IdealConfiguration) :
    Prop where
  state : c.state = ideal.state
  cell : ∀ (i : Nat) (s : Text), c.tape.cells[i]? = some s → ideal.tape.cell (i - offset) = s
  outside : ∀ i : Int, i + offset < 0 ∨ c.tape.cells.length ≤ i + offset →
    ideal.tape.cell i = blank
  head : c.tape.position - offset = ideal.tape.head
  position_lt : c.tape.position < c.tape.cells.length

theorem Shows.covers {blank : Text} (h : c.Shows blank offset ideal) :
    c.Covers blank offset ideal where
  state := h.state
  cell _ _ hi := h.tape.cells_getElem? hi
  outside _ hi := h.tape.cell_eq_blank hi
  head := by rw [← h.tape.head, Int.add_sub_cancel]
  position_lt := c.tape.position_lt_length_cells

end Configuration

/-! ## Recorded steps -/

/-- The number of cells put in front of the tape along recorded steps. -/
def growths : List Step → Nat
  | s :: next :: rest => next.fired.elim 0 s.configuration.growth + growths (next :: rest)
  | _ => 0

namespace Machine

variable {m : Machine} {input : Text} {left taken offset : Nat} {c : Configuration}
  {via : Option Transition} {ideal : IdealConfiguration}

theorem halts_eq_false (haccept : c.state ≠ m.accept) (hreject : c.state ≠ m.reject) :
    m.halts c.state = false := by
  simp [halts, haccept, hreject]

/-- The first step records where the run starts. -/
theorem exists_steps_walk (m : Machine) (cancel : Cancellation) (left taken : Nat)
    (c : Configuration) (via : Option Transition) :
    ∃ s rest, (m.walk cancel left taken c via).steps = s :: rest ∧ s.number = taken ∧
      s.configuration = c ∧ s.fired = via := by
  fun_cases Machine.walk m cancel left taken c via <;> exact ⟨_, _, rfl, rfl, rfl, rfl⟩

/-- What a transition led to after the first step is recorded by the run that goes on there. -/
theorem exists_walk_of_fired {k : Nat} {s : Step}
    (hs : (m.walk .never left taken c via).steps[k + 1]? = some s) (hfired : s.fired ≠ none) :
    ∃ more t, m.halts c.state = false ∧ m.transition? c.state c.tape.head = some t ∧
      m.walk .never left taken c via =
        (m.walk .never more (taken + 1) (m.fire c t) (some t)).cons (.passing taken c via) := by
  revert hs
  fun_cases Machine.walk m .never left taken c via with
  | case1 | case2 | case3 | case4 =>
    -- The run ends at its first step.
    intro hs
    simp [Run.steps, finish, Run.stop, Trace.toList] at hs
  | case5 =>
    -- The one step that follows is into the rejecting state, by no transition.
    intro hs
    obtain ⟨-, rfl⟩ : k = 0 ∧ Step.rejecting (taken + 1) ⟨m.reject, c.tape⟩ none = s := by
      simpa [Run.steps, finish, Run.stop, Run.cons, Trace.toList, List.getElem?_singleton] using hs
    exact absurd rfl hfired
  | case6 _ _ _ haccept hreject _ more t ht =>
    exact fun _ => ⟨more, t, halts_eq_false haccept hreject, ht, rfl⟩

/-- **The run lemma**: a recorded step that is the first or led to by a transition shows the
ideal configuration after as many moves. -/
theorem walk_recorded (hafter : m.idealAfter? input taken = some ideal)
    (hshows : c.Shows m.blank offset ideal) {k : Nat} {s : Step}
    (hs : (m.walk .never left taken c via).steps[k]? = some s) (hfired : k = 0 ∨ s.fired ≠ none) :
    s.number = taken + k ∧ ∃ after, m.idealAfter? input (taken + k) = some after ∧
      s.configuration.Shows m.blank
        (offset + growths ((m.walk .never left taken c via).steps.take (k + 1))) after := by
  induction k generalizing left taken offset c via ideal with
  | zero =>
    obtain ⟨first, rest, hsteps, hnumber, hc, -⟩ := exists_steps_walk m .never left taken c via
    rw [hsteps, List.getElem?_cons_zero, Option.some.injEq] at hs
    subst hs
    rw [hsteps]
    exact ⟨hnumber, ideal, hafter, hc ▸ hshows⟩
  | succ k ih =>
    have hled : s.fired ≠ none := hfired.resolve_left k.succ_ne_zero
    obtain ⟨more, t, hhalts, ht, hwalk⟩ := exists_walk_of_fired hs hled
    obtain ⟨first, rest, hsteps, -, hc, hvia⟩ :=
      exists_steps_walk m .never more (taken + 1) (m.fire c t) (some t)
    have hnext := hshows.idealAfter?_succ hafter hhalts ht
    have htail : (m.walk .never more (taken + 1) (m.fire c t) (some t)).steps[k]? = some s := by
      rwa [hwalk] at hs
    obtain ⟨hnumber, after, hafter', hshows'⟩ := ih hnext (hshows.fire t) htail (.inr hled)
    have hgrowths : growths ((m.walk .never left taken c via).steps.take (k + 1 + 1)) =
        c.growth t +
          growths ((m.walk .never more (taken + 1) (m.fire c t) (some t)).steps.take (k + 1)) := by
      rw [hwalk]
      change growths (.passing taken c via ::
        (m.walk .never more (taken + 1) (m.fire c t) (some t)).steps.take (k + 1)) = _
      rw [hsteps, List.take_succ_cons, growths, hvia]
      rfl
    refine ⟨by omega, after, by rwa [Nat.add_right_comm] at hafter', ?_⟩
    rwa [hgrowths, ← Nat.add_assoc]

/-! ## The end of a run -/

/-- How the ideal run stands, after some moves, where a run with a limit ends. -/
inductive Ends (m : Machine) (limit moves : Nat) (ideal : IdealConfiguration) : Outcome → Prop where
  | accepted (haccept : ideal.state = m.accept) : Ends m limit moves ideal .accepted
  | rejected (hreject : ideal.state = m.reject) : Ends m limit moves ideal .rejected
  | stuck (hhalts : m.halts ideal.state = false)
      (hnone : m.transition? ideal.state ideal.tape.read = none) (hlimit : moves < limit) :
      Ends m limit moves ideal .rejected
  | exhausted (hhalts : m.halts ideal.state = false) (hlimit : moves = limit) :
      Ends m limit moves ideal .budgetExhausted

/-- Where a run ends, its tape is that of the ideal run at its end. -/
theorem walk_ends (left : Nat) (via : Option Transition)
    (hafter : m.idealAfter? input taken = some ideal) (hshows : c.Shows m.blank offset ideal) :
    ∃ moves ≤ taken + left, ∃ after end', m.idealAfter? input moves = some after ∧
      (finalTape (m.walk .never left taken c via)).Shows m.blank end' after.tape ∧
      m.Ends (taken + left) moves after (m.walk .never left taken c via).outcome := by
  fun_induction Machine.walk m .never left taken c via generalizing offset ideal with
  | case1 left taken c via haccept =>
    exact ⟨taken, Nat.le_add_right .., ideal, offset, hafter, hshows.tape,
      .accepted (hshows.state ▸ haccept)⟩
  | case2 left taken c via _ hreject =>
    exact ⟨taken, Nat.le_add_right .., ideal, offset, hafter, hshows.tape,
      .rejected (hshows.state ▸ hreject)⟩
  | case3 left taken c via _ _ hcancel => exact absurd hcancel (by simp)
  | case4 taken c via haccept hreject _ =>
    exact ⟨taken, Nat.le_add_right .., ideal, offset, hafter, hshows.tape,
      .exhausted (hshows.state ▸ halts_eq_false haccept hreject) rfl⟩
  | case5 taken c via haccept hreject _ more hnone =>
    refine ⟨taken, Nat.le_add_right .., ideal, offset, hafter, hshows.tape,
      .stuck (hshows.state ▸ halts_eq_false haccept hreject) ?_ (by omega)⟩
    rwa [← hshows.state, hshows.tape.read_eq]
  | case6 taken c via haccept hreject _ more t ht ih =>
    have hnext := hshows.idealAfter?_succ hafter (halts_eq_false haccept hreject) ht
    obtain ⟨moves, hmoves, hrest⟩ := ih hnext (hshows.fire t)
    rw [Nat.add_right_comm] at hmoves hrest
    exact ⟨moves, hmoves, hrest⟩

/-! ## One end -/

theorem idealNext?_of_halts (hhalts : m.halts ideal.state = true) : m.idealNext? ideal = none := by
  rw [idealNext?, if_pos hhalts]

theorem idealNext?_of_stuck (hhalts : m.halts ideal.state = false)
    (hnone : m.transition? ideal.state ideal.tape.read = none) : m.idealNext? ideal = none := by
  rw [idealNext?, hhalts, hnone]
  rfl

/-- Where an ideal run cannot go on it has made its last move. -/
theorem idealAfter?_eq_none {moves others : Nat} (hafter : m.idealAfter? input moves = some ideal)
    (hlast : m.idealNext? ideal = none) (hlt : moves < others) :
    m.idealAfter? input others = none := by
  induction hlt with
  | refl => rw [idealAfter?, hafter, Option.bind_some, hlast]
  | step _ ih => rw [idealAfter?, ih, Option.bind_none]

/-- Where a run ends before its limit, the ideal run cannot go on. -/
theorem Ends.idealNext?_eq_none {limit moves : Nat} {o : Outcome}
    (h : m.Ends limit moves ideal o) (hlimit : moves ≠ limit) : m.idealNext? ideal = none := by
  cases h with
  | accepted haccept => exact idealNext?_of_halts (by simp [halts, haccept])
  | rejected hreject => exact idealNext?_of_halts (by simp [halts, hreject])
  | stuck hhalts hnone _ => exact idealNext?_of_stuck hhalts hnone
  | exhausted _ hmoves => exact absurd hmoves hlimit

/-- An ideal run does not go past an end within the limit. -/
theorem Ends.moves_le {limit moves others : Nat} {other : IdealConfiguration} {o : Outcome}
    (h : m.Ends limit moves ideal o) (hafter : m.idealAfter? input moves = some ideal)
    (hother : m.idealAfter? input others = some other) (hothers : others ≤ limit) :
    others ≤ moves := by
  by_contra hlt
  have hnone : m.idealAfter? input others = none :=
    idealAfter?_eq_none hafter (h.idealNext?_eq_none (by omega)) (by omega)
  rw [hnone] at hother
  cases hother

/-- Runs with one limit end alike: where the two halting states differ the outcome is one. -/
theorem Ends.outcome_eq {limit moves others : Nat} {other : IdealConfiguration} {o p : Outcome}
    (hm : m.accept ≠ m.reject) (h : m.Ends limit moves ideal o)
    (hafter : m.idealAfter? input moves = some ideal) (hmoves : moves ≤ limit)
    (h' : m.Ends limit others other p) (hafter' : m.idealAfter? input others = some other)
    (hothers : others ≤ limit) : o = p := by
  obtain rfl : others = moves :=
    Nat.le_antisymm (h.moves_le hafter hafter' hothers) (h'.moves_le hafter' hafter hmoves)
  obtain rfl : ideal = other := Option.some.inj (hafter.symm.trans hafter')
  cases h <;> cases h' <;> simp_all [halts]

/-! ## The run as a whole -/

/-- Whether the ideal run comes into the accepting state in at most so many moves. -/
def AcceptsWithin (m : Machine) (input : Text) (limit : Nat) : Prop :=
  ∃ moves ≤ limit, ∃ ideal, m.idealAfter? input moves = some ideal ∧ ideal.state = m.accept

/-- Whether the ideal run comes into the rejecting state in at most so many moves, or after
fewer into another where no transition is there. -/
def RejectsWithin (m : Machine) (input : Text) (limit : Nat) : Prop :=
  (∃ moves ≤ limit, ∃ ideal, m.idealAfter? input moves = some ideal ∧ ideal.state = m.reject) ∨
    ∃ moves < limit, ∃ ideal, m.idealAfter? input moves = some ideal ∧
      m.halts ideal.state = false ∧ m.transition? ideal.state ideal.tape.read = none

theorem acceptsWithin_iff {limit : Nat} : m.AcceptsWithin input limit ↔
    ∃ moves ≤ limit, ∃ ideal, m.idealAfter? input moves = some ideal ∧
      m.Ends limit moves ideal .accepted := by
  constructor
  · rintro ⟨moves, hmoves, ideal, hafter, haccept⟩
    exact ⟨moves, hmoves, ideal, hafter, .accepted haccept⟩
  · rintro ⟨moves, hmoves, ideal, hafter, haccept | _⟩
    exact ⟨moves, hmoves, ideal, hafter, haccept⟩

theorem rejectsWithin_iff {limit : Nat} : m.RejectsWithin input limit ↔
    ∃ moves ≤ limit, ∃ ideal, m.idealAfter? input moves = some ideal ∧
      m.Ends limit moves ideal .rejected := by
  constructor
  · rintro (⟨moves, hmoves, ideal, hafter, hreject⟩ |
      ⟨moves, hmoves, ideal, hafter, hhalts, hnone⟩)
    · exact ⟨moves, hmoves, ideal, hafter, .rejected hreject⟩
    · exact ⟨moves, hmoves.le, ideal, hafter, .stuck hhalts hnone hmoves⟩
  · rintro ⟨moves, hmoves, ideal, hafter, hend⟩
    cases hend with
    | rejected hreject => exact .inl ⟨moves, hmoves, ideal, hafter, hreject⟩
    | stuck hhalts hnone hlimit => exact .inr ⟨moves, hlimit, ideal, hafter, hhalts, hnone⟩

theorem run_ends (m : Machine) (input : Text) (budget : Budget) :
    ∃ moves ≤ stepLimit budget, ∃ ideal offset, m.idealAfter? input moves = some ideal ∧
      (finalTape (m.run input budget .never)).Shows m.blank offset ideal.tape ∧
      m.Ends (stepLimit budget) moves ideal (m.run input budget .never).outcome := by
  have hstart : m.idealAfter? input 0 = some (m.idealInitial input) := rfl
  have hends := walk_ends (stepLimit budget) none hstart (Configuration.shows_initial m input)
  rwa [Nat.zero_add] at hends

/-- The outcome of a run is the one for which the ideal run ends within the limit. -/
theorem outcome_run_eq_iff (hm : m.accept ≠ m.reject) (budget : Budget) {o : Outcome} :
    (m.run input budget .never).outcome = o ↔
      ∃ moves ≤ stepLimit budget, ∃ ideal, m.idealAfter? input moves = some ideal ∧
        m.Ends (stepLimit budget) moves ideal o := by
  obtain ⟨moves, hmoves, ideal, -, hafter, -, hend⟩ := m.run_ends input budget
  constructor
  · rintro rfl
    exact ⟨moves, hmoves, ideal, hafter, hend⟩
  · rintro ⟨others, hothers, other, hafter', hend'⟩
    exact hend.outcome_eq hm hafter hmoves hend' hafter' hothers

/-- **A run is that of the ideal machine.**  A step that is the first or led to by a transition
records the ideal configuration after as many moves as far as its tape is laid out; the run
accepts or rejects exactly where the ideal machine does so within the limit, and otherwise
exhausts it; and the contents of the tape are the symbols that the ideal machine leaves
between blanks. -/
theorem run_follows_ideal (m : Machine) (hm : m.Valid) (input : Text) (budget : Budget) :
    (∀ k s, (m.run input budget .never).steps[k]? = some s → k = 0 ∨ s.fired ≠ none →
      s.number = k ∧ ∃ ideal, m.idealAfter? input k = some ideal ∧
        s.configuration.Covers m.blank
          (growths ((m.run input budget .never).steps.take (k + 1))) ideal) ∧
    ((m.run input budget .never).outcome = .accepted ↔
      m.AcceptsWithin input (stepLimit budget)) ∧
    ((m.run input budget .never).outcome = .rejected ↔
      m.RejectsWithin input (stepLimit budget)) ∧
    ((m.run input budget .never).outcome = .budgetExhausted ↔
      ¬ m.AcceptsWithin input (stepLimit budget) ∧ ¬ m.RejectsWithin input (stepLimit budget)) ∧
    ∃ moves ≤ stepLimit budget, ∃ ideal, m.idealAfter? input moves = some ideal ∧
      (moves = stepLimit budget ∨ m.idealNext? ideal = none) ∧
      ∃ first symbols, ideal.tape.Holds m.blank first symbols ∧
        m.contentsOf (m.run input budget .never) = symbols.flatten := by
  have hne : m.accept ≠ m.reject := hm.2.2.2.2.1
  have haccepted : (m.run input budget .never).outcome = .accepted ↔
      m.AcceptsWithin input (stepLimit budget) :=
    (outcome_run_eq_iff hne budget).trans acceptsWithin_iff.symm
  have hrejected : (m.run input budget .never).outcome = .rejected ↔
      m.RejectsWithin input (stepLimit budget) :=
    (outcome_run_eq_iff hne budget).trans rejectsWithin_iff.symm
  obtain ⟨moves, hmoves, ideal, offset, hafter, hshows, hend⟩ := m.run_ends input budget
  refine ⟨?_, haccepted, hrejected, ?_, moves, hmoves, ideal, hafter, ?_,
    hshows.holds_contents⟩
  · intro k s hs hfired
    obtain ⟨hnumber, after, hafter', hshows'⟩ :=
      walk_recorded rfl (Configuration.shows_initial m input) hs hfired
    rw [Nat.zero_add] at hnumber hafter' hshows'
    exact ⟨hnumber, after, hafter', hshows'.covers⟩
  · rw [← haccepted, ← hrejected]
    generalize (m.run input budget .never).outcome = o at hend ⊢
    cases hend <;> decide
  · by_cases hlimit : moves = stepLimit budget
    · exact .inl hlimit
    · exact .inr (hend.idealNext?_eq_none hlimit)

/-- A machine that puts a cell in front of the tape, overwrites the input with a symbol of two
code points and then walks to the right for ever. -/
def wanderer : Machine where
  states := [.text "start", .text "back", .text "on", .text "yes", .text "no"]
  alphabet := [.text "1"]
  tapeAlphabet := [.text "1", .text "_", .text "ab"]
  transitions := [⟨"start", "1", "ab", .left, "back"⟩, ⟨"back", "_", "_", .right, "on"⟩,
    ⟨"on", "ab", "ab", .right, "on"⟩, ⟨"on", "_", "_", .right, "on"⟩]
  start := "start"
  accept := "yes"
  reject := "no"
  blank := "_"

theorem run_follows_ideal_wanderer :
    wanderer.Valid ∧
    (∃ s ideal, (wanderer.run "1" { steps := some 25 } .never).steps[25]? = some s ∧
      wanderer.idealAfter? "1" 25 = some ideal ∧ s.configuration.tape.cells.length = 25 ∧
      s.configuration.Covers "_" 1 ideal) ∧
    ¬ wanderer.AcceptsWithin "1" 25 ∧ ¬ wanderer.RejectsWithin "1" 25 ∧
    ∃ moves ≤ 25, ∃ ideal, wanderer.idealAfter? "1" moves = some ideal ∧
      ∃ first symbols, ideal.tape.Holds "_" first symbols ∧ symbols.flatten = ("ab" : Text) := by
  have hvalid : wanderer.Valid := by decide +kernel
  obtain ⟨hsteps, -, -, hexhausted, moves, hmoves, ideal, hafter, -, first, symbols, hholds,
    hcontents⟩ := run_follows_ideal wanderer hvalid "1" { steps := some 25 }
  obtain ⟨haccept, hreject⟩ := hexhausted.1 (by decide +kernel)
  have hab : wanderer.contentsOf (wanderer.run "1" { steps := some 25 } .never) = "ab" := by
    decide +kernel
  have hgrowths : growths ((wanderer.run "1" { steps := some 25 } .never).steps.take 26) = 1 := by
    decide +kernel
  have hlast : ((wanderer.run "1" { steps := some 25 } .never).steps[25]?.all fun s =>
      s.fired.isSome && s.configuration.tape.cells.length = 25) = true := by decide +kernel
  obtain ⟨s, hs⟩ : ∃ s, (wanderer.run "1" { steps := some 25 } .never).steps[25]? = some s :=
    Option.isSome_iff_exists.1 (by decide +kernel)
  rw [hs, Option.all_some, Bool.and_eq_true, decide_eq_true_eq] at hlast
  obtain ⟨-, after, hafter', hcovers⟩ := hsteps 25 s hs
    (.inr fun hnone => by simp [hnone] at hlast)
  rw [hgrowths] at hcovers
  exact ⟨hvalid, ⟨s, after, hs, hafter', hlast.2, hcovers⟩, haccept, hreject, moves, hmoves, ideal,
    hafter, first, symbols, hholds, hcontents.symm.trans hab⟩

end Machine

end FormalMachines.Turing
