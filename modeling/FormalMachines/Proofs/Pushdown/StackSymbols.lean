import FormalMachines.Proofs.Pushdown.Discipline
import FormalMachines.Proofs.Pushdown.Document
import FormalMachines.Proofs.Pushdown.FirstMatch

/-!
# FormalMachines.Proofs.Pushdown.StackSymbols

Which symbols get onto the stack of an automaton that was read.

An empty input symbol and an empty pop symbol of a definition are read as `ε`, an empty push
symbol is not.  A move leaves out `ε` when it pushes, so `ε` never gets onto the stack; the
empty symbol does, just when a move that pushes it is fired, and there no pop symbol that can
be read finds it (`Automaton.runIn_stack_symbols`).
-/

namespace FormalMachines.Pushdown

/-! ## What can be popped -/

/-- Whether some pop symbol that can be read takes a symbol off the stack. -/
def Poppable (x : Text) : Prop :=
  ∃ entry t, readTransition entry = .ok t ∧ t.pop ≠ epsilon ∧ t.popsFrom [x]

/-- **The symbols that can be popped** are those that are neither empty nor `ε`. -/
theorem poppable_iff {x : Text} : Poppable x ↔ x ≠ [] ∧ x ≠ epsilon := by
  constructor
  · intro ⟨entry, t, hread, hpop, hpops⟩
    obtain rfl : x = t.pop := by simpa using Transition.head?_of_popsFrom hpops hpop
    exact ⟨pop_ne_nil_of_readTransition hread, hpop⟩
  · intro ⟨hne, hx⟩
    have hp : ("p" : Text) ≠ [] := by decide
    have hepsilon : epsilon ≠ [] := by decide
    let t : Transition := ⟨"p", epsilon, x, "p", []⟩
    exact ⟨t.toJson, t, readTransition_toJson hp hepsilon hne hp, hx,
      by simp [t, Transition.popsFrom]⟩

/-! ## What runs put onto the stack -/

variable {a : Automaton} {input : Text} {c d : Configuration} {moves : List Transition}
  {verdict : Option Bool} {n : Nat} {via : Option Transition}

/-- What holds of the symbols on the stack and of those that moves push holds of all symbols
on the stack throughout their record. -/
theorem forall_stack_recordRun {P : Text → Prop} (hc : ∀ x ∈ c.stack, P x)
    (hpush : ∀ t ∈ moves, ∀ x ∈ t.push, x ≠ epsilon → P x) :
    ∀ s ∈ recordRun input verdict n c via moves, ∀ x ∈ s.stack, P x := by
  induction moves generalizing n c via with
  | nil => simpa [recordRun, Configuration.record] using hc
  | cons t moves ih =>
      have hfire : ∀ x ∈ (c.fire t).stack, P x := by
        intro x hx
        obtain hx | hx := List.mem_append.1 hx
        · obtain ⟨hx, hne⟩ := List.mem_filter.1 hx
          exact hpush t List.mem_cons_self x hx (by simpa using hne)
        · exact hc x ((t.popFrom_suffix c.stack).mem hx)
      intro s hs
      obtain rfl | hs := List.mem_cons.1 hs
      · exact hc
      · exact ih hfire (fun u hu => hpush u (List.mem_cons_of_mem t hu)) s hs

/-- A symbol that a move pushes is on the stack right after it. -/
theorem exists_stack_recordRun {t : Transition} {x : Text} (ht : t ∈ moves) (hx : x ∈ t.push)
    (hne : x ≠ epsilon) : ∃ s ∈ recordRun input verdict n c via moves, x ∈ s.stack := by
  induction moves generalizing n c via with
  | nil => cases ht
  | cons u moves ih =>
      obtain rfl | ht := List.mem_cons.1 ht
      · obtain ⟨verdict', rest, hrest⟩ :=
          exists_recordRun_eq_cons input verdict (n + 1) (c.fire t) (some t) moves
        have hmem : x ∈ (c.fire t).stack :=
          List.mem_append_left _ (List.mem_filter.2 ⟨hx, by simpa using hne⟩)
        exact ⟨(c.fire t).record input (n + 1) (some t) verdict', by simp [recordRun, hrest], hmem⟩
      · obtain ⟨s, hs, hmem⟩ := @ih (c.fire u) (n + 1) (some u) ht
        exact ⟨s, List.mem_cons_of_mem _ hs, hmem⟩

namespace Automaton

/-- **The symbols on the stack** of an automaton that was read are never `ε`, and they are real
ones that can be popped just as long as no move is fired that pushes the empty symbol. -/
theorem runIn_stack_symbols {definition : Json} (h : ofJson definition = .ok a) (mode : Mode)
    (input : Text) (budget : Budget) (cancel : Cancellation) :
    let r := (a.runIn mode input budget cancel).run
    (∀ s ∈ r.steps, ∀ x ∈ s.stack, x ≠ epsilon) ∧
    ((∀ s ∈ r.steps, ∀ x ∈ s.stack, x ≠ [] ∧ x ≠ epsilon ∧ Poppable x) ↔
      ∀ t ∈ movesOf r, [] ∉ t.push) := by
  intro r
  obtain ⟨moves, d, verdict, -, hsteps⟩ := a.exists_recordRun mode input budget cancel
  obtain ⟨hinitial, hinitial'⟩ := (valid_ofJson h).2.2.2.1
  have hsteps : r.steps = _ := hsteps
  have hmoves : movesOf r = moves := by
    rw [movesOf, hsteps, filterMap_fired_recordRun]
    rfl
  have hepsilon : ∀ s ∈ r.steps, ∀ x ∈ s.stack, x ≠ epsilon := by
    rw [hsteps]
    exact forall_stack_recordRun (by simpa [initial] using hinitial') fun _ _ _ _ hne => hne
  refine ⟨hepsilon, fun hreal t ht hpush => ?_, fun hpush s hs x hx => ?_⟩
  · obtain ⟨s, hs, hx⟩ := exists_stack_recordRun (hmoves ▸ ht) hpush (by decide)
    exact (hreal s (hsteps ▸ hs) [] hx).1 rfl
  · have hnil : ∀ s ∈ r.steps, ∀ x ∈ s.stack, x ≠ [] := by
      rw [hsteps]
      refine forall_stack_recordRun (by simpa [initial] using hinitial) ?_
      intro t ht x hx _ hempty
      exact hpush t (hmoves ▸ ht) (hempty ▸ hx)
    have hreal : x ≠ [] ∧ x ≠ epsilon := ⟨hnil s hs x hx, hepsilon s hs x hx⟩
    exact ⟨hreal.1, hreal.2, poppable_iff.2 hreal⟩

/-- An automaton whose first move pushes the empty symbol, which hides the one below it. -/
def plugged : Automaton where
  states := [.text "p", .text "q", .text "r"]
  inputAlphabet := [.text "a", .text "b", .text "c"]
  stackAlphabet := [.text "A", .text "Z"]
  transitions := [⟨"p", "a", epsilon, "q", [""]⟩, ⟨"q", "b", "Z", "r", []⟩,
    ⟨"p", "c", "Z", "p", ["A", epsilon, "Z"]⟩]
  start := "p"
  initialSymbol := "Z"
  accepting := [.text "r"]

theorem runIn_stack_symbols_plugged :
    ofJson plugged.toJson = .ok plugged ∧
      let r := (plugged.runIn .firstMatch "c" .unlimited .never).run
      r.steps.map (·.stack) = [[("Z" : Text)], [("A" : Text), "Z"]] ∧
      ∀ s ∈ r.steps, ∀ x ∈ s.stack, x ≠ [] ∧ x ≠ epsilon ∧ Poppable x := by
  have hread : ofJson plugged.toJson = .ok plugged := rfl
  exact ⟨hread, by decide +kernel,
    (runIn_stack_symbols hread .firstMatch "c" .unlimited .never).2.2 (by decide +kernel)⟩

/-- The empty symbol gets onto the stack, and the automaton is stuck below it. -/
theorem empty_symbol_plugged :
    ofJson plugged.toJson = .ok plugged ∧
      let r := (plugged.runIn .firstMatch "ab" .unlimited .never).run
      r.steps.map (·.stack) = [[("Z" : Text)], [("" : Text), "Z"]] ∧ r.outcome = .rejected ∧
      ¬ ∀ s ∈ r.steps, ∀ x ∈ s.stack, x ≠ [] ∧ x ≠ epsilon :=
  ⟨rfl, by decide +kernel⟩

end Automaton

end FormalMachines.Pushdown
