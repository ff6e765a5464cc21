import FormalMachines.Proofs.Pushdown.Recorded
import Mathlib.Data.List.DropRight

/-!
# FormalMachines.Proofs.Pushdown.Discipline

The stack discipline between any two steps of a run.

A move that was fired is looked at with the stack that it found (`Firing`).  What one move
does to a stack, a pop that finds its symbol on top and then the push symbols on the rest,
adds up along a run:

1. the height changes by the symbols pushed and those popped (`height_of_runs`);
2. what lies below every stack that a pop left is not touched (`bottom_of_runs`).

As every run is recorded as a run, both hold between any two of its steps
(`Automaton.runIn_stack_discipline`).
-/

namespace FormalMachines.Pushdown

/-! ## One move -/

namespace Transition

variable {t : Transition} {stack : List Text}

theorem head?_of_popsFrom (h : t.popsFrom stack) (hpop : t.pop ≠ epsilon) :
    stack.head? = some t.pop := by
  simpa [popsFrom, hpop] using h

theorem popFrom_suffix (t : Transition) (stack : List Text) : t.popFrom stack <:+ stack := by
  rw [popFrom]
  split
  · exact List.suffix_rfl
  · exact List.tail_suffix stack

end Transition

/-- What ends a list ends it with the same last items. -/
theorem rtake_of_suffix {α : Type} {l l' : List α} {m : Nat} (h : l <:+ l') (hm : m ≤ l.length) :
    l'.rtake m = l.rtake m := by
  obtain ⟨front, rfl⟩ := h
  simp only [List.rtake, List.length_append]
  rw [List.drop_append, List.drop_eq_nil_of_le (by omega), List.nil_append]
  congr 1
  omega

/-! ## The moves of a run with their stacks -/

/-- A move that was fired, and the stack that it found. -/
structure Firing where
  stack : List Text
  move : Transition
  deriving DecidableEq, Repr

namespace Firing

/-- Whether a symbol was popped. -/
def pops (f : Firing) : Bool := f.move.pop ≠ epsilon

/-- The stack right after the pop. -/
def popped (f : Firing) : List Text := f.move.popFrom f.stack

/-- The symbols put onto it, the first of them on top. -/
def pushed (f : Firing) : List Text := f.move.push.filter (· ≠ epsilon)

/-- A pop takes one symbol off. -/
theorem length_popped {f : Firing} (h : f.move.popsFrom f.stack) :
    f.popped.length + (if f.pops then 1 else 0) = f.stack.length := by
  by_cases hpop : f.move.pop = epsilon
  · simp [popped, pops, Transition.popFrom, hpop]
  · have hhead := Transition.head?_of_popsFrom h hpop
    cases hstack : f.stack with
    | nil => simp [hstack] at hhead
    | cons x stack => simp [popped, pops, Transition.popFrom, hpop, hstack]

theorem length_popped_le (f : Firing) : f.popped.length ≤ f.stack.length :=
  (f.move.popFrom_suffix f.stack).length_le

end Firing

/-- The moves of a run from a configuration with the stacks that they find. -/
def Configuration.firings : Configuration → List Transition → List Firing
  | _, [] => []
  | c, t :: moves => ⟨c.stack, t⟩ :: (c.fire t).firings moves

namespace Configuration

theorem length_firings (c : Configuration) (moves : List Transition) :
    (c.firings moves).length = moves.length := by
  induction moves generalizing c with
  | nil => rfl
  | cons t moves ih => simp [firings, ih]

theorem take_firings (c : Configuration) (moves : List Transition) (k : Nat) :
    (c.firings moves).take k = c.firings (moves.take k) := by
  induction moves generalizing c k with
  | nil => simp [firings]
  | cons t moves ih => cases k <;> simp [firings, ih]

theorem drop_firings (c : Configuration) (moves : List Transition) (k : Nat) :
    (c.firings moves).drop k = ((moves.take k).foldl fire c).firings (moves.drop k) := by
  induction moves generalizing c k with
  | nil => simp [firings]
  | cons t moves ih => cases k <;> simp [firings, ih]

end Configuration

/-- The least height of a stack that a pop left, or the given one if nothing was fired. -/
def leastHeight (height : Nat) (fired : List Firing) : Nat :=
  ((fired.map (·.popped.length)).min?).getD height

theorem leastHeight_le {height : Nat} {fired : List Firing} {f : Firing} (h : f ∈ fired) :
    leastHeight height fired ≤ f.popped.length := by
  have hmem : f.popped.length ∈ fired.map (·.popped.length) := List.mem_map_of_mem h
  rw [leastHeight]
  cases hleast : (fired.map (·.popped.length)).min? with
  | none => simp_all
  | some m => exact (List.min?_eq_some_iff.1 hleast).2 _ hmem

namespace Automaton

variable {a : Automaton} {input : Text} {c d : Configuration} {moves : List Transition}

theorem popsFrom_of_allows {t : Transition} (h : c.allows input t) : t.popsFrom c.stack := by
  simp only [Configuration.allows, Configuration.admits, Bool.and_eq_true] at h
  exact h.1.2

/-- **Every pop** finds its symbol on top of the stack. -/
theorem head?_of_mem_firings (h : a.Runs input c moves d) {f : Firing}
    (hf : f ∈ c.firings moves) (hpops : f.pops) : f.stack.head? = some f.move.pop := by
  induction h with
  | nil => cases hf
  | cons mem allowed rest ih =>
      obtain rfl | hf := List.mem_cons.1 hf
      · exact Transition.head?_of_popsFrom (popsFrom_of_allows allowed)
          (by simpa [Firing.pops] using hpops)
      · exact ih hf

/-- **The height** of the stack changes by what was pushed and what was popped. -/
theorem height_of_runs (h : a.Runs input c moves d) :
    d.stack.length + (c.firings moves).countP (·.pops) =
      c.stack.length + ((c.firings moves).flatMap (·.pushed)).length := by
  induction h with
  | nil => simp [Configuration.firings]
  | @cons c d t moves mem allowed rest ih =>
      let f : Firing := ⟨c.stack, t⟩
      have hpop : f.popped.length + (if f.pops then 1 else 0) = c.stack.length :=
        Firing.length_popped (popsFrom_of_allows allowed)
      have hfire : (c.fire t).stack.length = f.pushed.length + f.popped.length :=
        List.length_append
      have hfirings : c.firings (t :: moves) = f :: (c.fire t).firings moves := rfl
      rw [hfirings, List.countP_cons, List.flatMap_cons, List.length_append]
      omega

/-- **The bottom** of the stack stays as it is up to any height that no pop undercuts. -/
theorem bottom_of_runs (h : a.Runs input c moves d) {m : Nat} (hc : m ≤ c.stack.length)
    (hm : ∀ f ∈ c.firings moves, m ≤ f.popped.length) :
    m ≤ d.stack.length ∧ c.stack.rtake m = d.stack.rtake m := by
  induction h with
  | nil => exact ⟨hc, rfl⟩
  | @cons c d t moves mem allowed rest ih =>
      have hpopped : m ≤ (t.popFrom c.stack).length := hm ⟨c.stack, t⟩ List.mem_cons_self
      have hsuffix : t.popFrom c.stack <:+ (c.fire t).stack := List.suffix_append _ _
      obtain ⟨hd, hbottom⟩ := ih (Nat.le_trans hpopped hsuffix.length_le)
        fun f hf => hm f (List.mem_cons_of_mem _ hf)
      refine ⟨hd, ?_⟩
      calc c.stack.rtake m = (t.popFrom c.stack).rtake m :=
            rtake_of_suffix (t.popFrom_suffix c.stack) hpopped
        _ = (c.fire t).stack.rtake m := (rtake_of_suffix hsuffix hpopped).symm
        _ = d.stack.rtake m := hbottom

/-- What lies below the least stack that a pop left is not touched. -/
theorem bottom_leastHeight (h : a.Runs input c moves d) :
    let m := leastHeight c.stack.length (c.firings moves)
    m ≤ c.stack.length ∧ m ≤ d.stack.length ∧ c.stack.rtake m = d.stack.rtake m := by
  intro m
  have hm : ∀ f ∈ c.firings moves, m ≤ f.popped.length := fun f hf => leastHeight_le hf
  have hc : m ≤ c.stack.length := by
    cases moves with
    | nil => exact Nat.le_refl _
    | cons t moves =>
        exact Nat.le_trans (hm ⟨c.stack, t⟩ List.mem_cons_self) (Firing.length_popped_le _)
  exact ⟨hc, bottom_of_runs h hc hm⟩

end Automaton

/-! ## The steps of a run -/

/-- The moves that steps record, each with the stack of the step before it. -/
def firings : List Step → List Firing
  | s :: t :: steps => (t.fired.map (Firing.mk s.stack)).toList ++ firings (t :: steps)
  | _ => []

/-- The moves fired between two steps. -/
def firedBetween (steps : List Step) (i j : Nat) : List Firing := ((firings steps).take j).drop i

/-- What holds of two steps and the moves fired between them. -/
structure Disciplined (s : Step) (fired : List Firing) (t : Step) : Prop where
  /-- Every pop found its symbol on top of the stack. -/
  found : ∀ f ∈ fired, f.pops → f.stack.head? = some f.move.pop
  /-- The height has changed by what was pushed and what was popped. -/
  height : (t.stack.length : Int) =
    s.stack.length - fired.countP (·.pops) + (fired.flatMap (·.pushed)).length
  /-- What lies below every stack that a pop left was not touched. -/
  bottom : let m := leastHeight s.stack.length fired
    m ≤ s.stack.length ∧ m ≤ t.stack.length ∧ s.stack.rtake m = t.stack.rtake m

variable {a : Automaton} {input : Text} {c d : Configuration} {moves : List Transition}
  {verdict : Option Bool} {n : Nat} {via : Option Transition}

/-- The moves of a record with their stacks are those that were recorded. -/
theorem firings_recordRun (input : Text) (verdict : Option Bool) (n : Nat) (c : Configuration)
    (via : Option Transition) (moves : List Transition) :
    firings (recordRun input verdict n c via moves) = c.firings moves := by
  induction moves generalizing n c via with
  | nil => rfl
  | cons t moves ih =>
      obtain ⟨verdict', rest, hrest⟩ :=
        exists_recordRun_eq_cons input verdict (n + 1) (c.fire t) (some t) moves
      rw [Configuration.firings, ← ih (n + 1) (c.fire t) (some t), recordRun, hrest]
      rfl

/-- The move that leads from one step of a record to the next. -/
theorem exists_steps_of_firing (h : a.Runs input c moves d) {k : Nat} {f : Firing}
    (hf : (c.firings moves)[k]? = some f) :
    ∃ s t, (recordRun input verdict n c via moves)[k]? = some s ∧
      (recordRun input verdict n c via moves)[k + 1]? = some t ∧ f.stack = s.stack ∧
      t.fired = some f.move ∧ f.move ∈ a.transitions ∧ t.stack = f.pushed ++ f.popped := by
  induction h generalizing n via k with
  | nil => simp [Configuration.firings] at hf
  | @cons c d t moves mem allowed rest ih =>
      cases k with
      | zero =>
          obtain ⟨verdict', steps, hsteps⟩ :=
            exists_recordRun_eq_cons input verdict (n + 1) (c.fire t) (some t) moves
          obtain rfl : ⟨c.stack, t⟩ = f := Option.some.inj hf
          refine ⟨c.record input n via none, (c.fire t).record input (n + 1) (some t) verdict',
            rfl, ?_, rfl, rfl, mem, rfl⟩
          rw [recordRun, hsteps]
          rfl
      | succ k => exact ih hf

namespace Automaton

/-- **Stack discipline.**  Every move that a run of either kind fired led from one of its steps
to the next and put its push symbols on the popped stack; and between any two steps every pop
found its symbol, the height counts what was pushed and popped, and the bottom stayed. -/
theorem runIn_stack_discipline (a : Automaton) (mode : Mode) (input : Text) (budget : Budget)
    (cancel : Cancellation) :
    let steps := (a.runIn mode input budget cancel).run.steps
    (∀ k f, (firings steps)[k]? = some f →
      ∃ s t, steps[k]? = some s ∧ steps[k + 1]? = some t ∧ f.stack = s.stack ∧
        t.fired = some f.move ∧ f.move ∈ a.transitions ∧ t.stack = f.pushed ++ f.popped) ∧
    ∀ i j s t, i ≤ j → steps[i]? = some s → steps[j]? = some t →
      (firedBetween steps i j).length = j - i ∧ Disciplined s (firedBetween steps i j) t := by
  intro steps
  obtain ⟨moves, d, verdict, hruns, hsteps⟩ := a.exists_recordRun mode input budget cancel
  have hsteps : steps = recordRun input (some verdict) 0 a.initial none moves := hsteps
  have hfirings : firings steps = a.initial.firings moves := by
    rw [hsteps, firings_recordRun]
  constructor
  · intro k f hf
    rw [hfirings] at hf
    rw [hsteps]
    exact exists_steps_of_firing hruns hf
  · intro i j s t hij hs ht
    rw [hsteps] at hs ht
    obtain ⟨hi, hs⟩ := of_getElem?_recordRun hs
    obtain ⟨hj, ht⟩ := of_getElem?_recordRun ht
    have hbetween : a.Runs input ((moves.take i).foldl Configuration.fire a.initial)
        ((moves.take j).drop i) ((moves.take j).foldl Configuration.fire a.initial) :=
      runs_between hruns hij
    have hfired : firedBetween steps i j =
        ((moves.take i).foldl Configuration.fire a.initial).firings ((moves.take j).drop i) := by
      rw [firedBetween, hfirings, Configuration.take_firings, Configuration.drop_firings,
        List.take_take, Nat.min_eq_left hij]
    rw [hfired]
    constructor
    · simp [Configuration.length_firings, Nat.min_eq_left hj]
    · constructor
      · exact fun f hf hpops => head?_of_mem_firings hbetween hf hpops
      · have hheight := height_of_runs hbetween
        rw [hs, ht]
        omega
      · rw [hs, ht]
        exact bottom_leastHeight hbetween

/-- An automaton that keeps a symbol on its stack for each opening letter. -/
def counter : Automaton where
  states := [.text "p"]
  inputAlphabet := [.text "a", .text "b"]
  stackAlphabet := [.text "A", .text "Z"]
  transitions := [⟨"p", "a", "Z", "p", ["A", epsilon, "Z"]⟩, ⟨"p", "a", "A", "p", ["A", "A"]⟩,
    ⟨"p", "b", "A", "p", []⟩]
  start := "p"
  initialSymbol := "Z"
  accepting := [.text "p"]

theorem runIn_stack_discipline_counter :
    let steps := (counter.runIn .firstMatch "aab" .unlimited .never).run.steps
    ∃ s t, steps[1]? = some s ∧ steps[3]? = some t ∧ s.stack = [("A" : Text), "Z"] ∧
      t.stack = [("A" : Text), "Z"] ∧ leastHeight s.stack.length (firedBetween steps 1 3) = 1 ∧
      (firedBetween steps 1 3).length = 2 ∧ Disciplined s (firedBetween steps 1 3) t := by
  intro steps
  have hs : steps[1]? = some ((⟨"p", 1, ["A", "Z"]⟩ : Configuration).record "aab" 1
      (some ⟨"p", "a", "Z", "p", ["A", epsilon, "Z"]⟩) none) := by
    decide +kernel
  have ht : steps[3]? = some ((⟨"p", 3, ["A", "Z"]⟩ : Configuration).record "aab" 3
      (some ⟨"p", "b", "A", "p", []⟩) (some true)) := by
    decide +kernel
  obtain ⟨hlength, hdisciplined⟩ :=
    (counter.runIn_stack_discipline .firstMatch "aab" .unlimited .never).2 1 3 _ _ (by decide) hs ht
  exact ⟨_, _, hs, ht, rfl, rfl, by decide +kernel, hlength, hdisciplined⟩

end Automaton

end FormalMachines.Pushdown
