import FormalMachines.Proofs.Pushdown.Document
import FormalMachines.Proofs.Pushdown.Recorded

/-!
# FormalMachines.Proofs.Pushdown.Safety

The runs of a valid pushdown automaton stay within its states.

The record of a run, of either kind, is that of moves of the automaton fired one after the
other from a declared state (`Automaton.exists_recordRun`), and these lead to declared states.
-/

namespace FormalMachines.Pushdown

/-- Whether a value names a kind of run. -/
def Mode.Named (mode : Json) : Prop := mode = .text "first-match" ∨ mode = .text "search"

/-- Whether a step is in a state of an automaton and was reached by one of its moves. -/
structure Step.Within (a : Automaton) (s : Step) : Prop where
  state : .text s.state ∈ a.states
  fired : ∀ t ∈ s.fired, t ∈ a.transitions

/-- The states that a step names. -/
def Step.named (s : Step) : List Text :=
  s.state :: s.fired.toList.flatMap fun t => [t.source, t.target]

theorem Step.Within.named {a : Automaton} {s : Step} (h : s.Within a) (ha : a.Valid) :
    ∀ q ∈ s.named, .text q ∈ a.states := by
  intro q hq
  obtain rfl | hq := List.mem_cons.1 hq
  · exact h.state
  · have hends : ∀ t ∈ s.fired.toList, .text t.source ∈ a.states ∧ .text t.target ∈ a.states :=
      fun t ht => ha.2.2.2.2 t (h.fired t (Option.mem_toList.1 ht))
    exact forall_mem_ends (p := fun q => .text q ∈ a.states) hends q hq

namespace Automaton

variable {a : Automaton} {input : Text} {c d : Configuration}

/-- A move leads to a declared state. -/
theorem state_fire_mem (ha : a.Valid) {t : Transition} (ht : t ∈ a.transitions)
    (c : Configuration) : .text (c.fire t).state ∈ a.states :=
  (ha.2.2.2.2 t ht).2

/-- The record of a run is within the automaton. -/
theorem within_recordRun (ha : a.Valid) {moves : List Transition} (h : a.Runs input c moves d)
    (hc : .text c.state ∈ a.states) (verdict : Option Bool) (n : Nat) {via : Option Transition}
    (hvia : ∀ t ∈ via, t ∈ a.transitions) :
    ∀ s ∈ recordRun input verdict n c via moves, s.Within a := by
  induction h generalizing n via with
  | nil c =>
      intro s hs
      rw [recordRun, List.mem_singleton] at hs
      exact hs ▸ ⟨hc, hvia⟩
  | @cons c d t moves mem allowed rest ih =>
      rw [recordRun]
      intro s hs
      obtain rfl | hs := List.mem_cons.1 hs
      · exact ⟨hc, hvia⟩
      · exact ih (state_fire_mem ha mem c) (n + 1) (fun u hu => Option.mem_some.1 hu ▸ mem) s hs

/-- A run of either kind is within the automaton. -/
theorem within_runIn (ha : a.Valid) (mode : Mode) (input : Text) (budget : Budget)
    (cancel : Cancellation) : ∀ s ∈ (a.runIn mode input budget cancel).run.steps, s.Within a := by
  obtain ⟨moves, d, verdict, hruns, hsteps⟩ := a.exists_recordRun mode input budget cancel
  rw [hsteps]
  exact within_recordRun ha hruns ha.2.1 (some verdict) 0 (fun _ ht => nomatch ht)

/-- **A run of a named kind** gives a result, every step of which is within the automaton. -/
theorem exists_simulate (ha : a.Valid) {mode : Json} (hmode : Mode.Named mode) (input : Text)
    (budget : Budget) (cancel : Cancellation) :
    ∃ r, a.simulate mode input budget cancel = .ok r ∧ ∀ s ∈ r.run.steps, s.Within a := by
  obtain rfl | rfl := hmode
  · exact ⟨a.runIn .firstMatch input budget cancel, rfl, within_runIn ha _ _ _ _⟩
  · exact ⟨a.runIn .search input budget cancel, rfl, within_runIn ha _ _ _ _⟩

end Automaton

end FormalMachines.Pushdown
