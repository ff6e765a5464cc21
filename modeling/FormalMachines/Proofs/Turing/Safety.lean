import FormalMachines.Proofs.Run.Cut
import FormalMachines.Proofs.Turing.Document
import FormalMachines.Turing.Indexed

/-!
# FormalMachines.Proofs.Turing.Safety

The runs of a valid Turing machine stay within its states, and on the tape.

The same run on a list of cells and an index never reads or writes beside a cell
(`runIndexed?_eq_some`): each move of the head that would leave the list makes it longer.
The states of the steps are declared (`within_run`), the rejecting one included, to which a
run goes where no transition is there.
-/

namespace FormalMachines

/-- The run with other steps in place of its own. -/
def Run.map {σ τ : Type} (f : σ → τ) (r : Run σ) : Run τ := ⟨r.trace.map f, r.accepts, r.outcome⟩

namespace Turing

/-- Whether a step is in a state of a machine and was reached by one of its transitions. -/
structure Step.Within (m : Machine) (s : Step) : Prop where
  state : .text s.configuration.state ∈ m.states
  fired : ∀ t ∈ s.fired, t ∈ m.transitions

/-- The states that a step names. -/
def Step.named (s : Step) : List Text :=
  s.configuration.state :: s.fired.toList.flatMap fun t => [t.state, t.next]

theorem Step.Within.named {m : Machine} {s : Step} (h : s.Within m) (hm : m.Valid) :
    ∀ q ∈ s.named, .text q ∈ m.states := by
  intro q hq
  obtain rfl | hq := List.mem_cons.1 hq
  · exact h.state
  · have hends : ∀ t ∈ s.fired.toList, .text t.state ∈ m.states ∧ .text t.next ∈ m.states :=
      fun t ht => hm.2.2.2.2.2.2 t (h.fired t (Option.mem_toList.1 ht))
    exact forall_mem_ends (p := fun q => .text q ∈ m.states) hends q hq

namespace Machine

variable {m : Machine} {c : Configuration}

/-! ## The index -/

/-- A run on an indexed tape does what the run does. -/
theorem walkIndexed?_eq_some (m : Machine) (cancel : Cancellation) (left taken : Nat)
    (c : Configuration) (via : Option Transition) :
    m.walkIndexed? cancel left taken c.state c.tape.indexed via =
      some ((m.walk cancel left taken c via).map Step.indexed) := by
  fun_induction walk m cancel left taken c via with
  | case1 left taken c via haccept =>
    unfold walkIndexed?
    rw [if_pos haccept]
    rfl
  | case2 left taken c via haccept hreject =>
    unfold walkIndexed?
    rw [if_neg haccept, if_pos hreject]
    rfl
  | case3 left taken c via haccept hreject hcancel =>
    unfold walkIndexed?
    rw [if_neg haccept, if_neg hreject, if_pos hcancel]
    rfl
  | case4 taken c via haccept hreject hcancel =>
    rw [walkIndexed?, if_neg haccept, if_neg hreject, if_neg hcancel]
    rfl
  | case5 taken c via haccept hreject hcancel more ht =>
    rw [walkIndexed?, if_neg haccept, if_neg hreject, if_neg hcancel, Tape.read?_indexed]
    simp only [Option.bind_eq_bind, Option.bind_some, ht]
    rfl
  | case6 taken c via haccept hreject hcancel more t ht ih =>
    rw [walkIndexed?, if_neg haccept, if_neg hreject, if_neg hcancel, Tape.read?_indexed]
    simp only [Option.bind_eq_bind, Option.bind_some, ht, Tape.write?_indexed, Tape.move_indexed]
    rw [fire] at ih
    rw [ih]
    rfl

/-- **The index** of a run is always on a cell. -/
theorem runIndexed?_eq_some (m : Machine) (input : Text) (budget : Budget)
    (cancel : Cancellation) :
    m.runIndexed? input budget cancel = some ((m.run input budget cancel).map Step.indexed) := by
  rw [runIndexed?, ← Tape.indexed_ofInput]
  exact walkIndexed?_eq_some m cancel (stepLimit budget) 0 (m.initial input) none

/-! ## The states -/

/-- A run that ends in a declared state is within the machine. -/
theorem within_stop (hc : .text c.state ∈ m.states) {via : Option Transition}
    (hvia : ∀ t ∈ via, t ∈ m.transitions) {number : Nat} {accepted rejected : Option Bool}
    {accepts : Bool} {outcome : Outcome} :
    ∀ s ∈ (Run.stop (⟨number, c, via, accepted, rejected⟩ : Step) accepts outcome).steps,
      s.Within m := by
  intro s hs
  rw [Run.steps_stop, List.mem_singleton] at hs
  exact hs ▸ ⟨hc, hvia⟩

theorem within_walk (hm : m.Valid) (cancel : Cancellation) (left taken : Nat)
    (hc : .text c.state ∈ m.states) {via : Option Transition}
    (hvia : ∀ t ∈ via, t ∈ m.transitions) :
    ∀ s ∈ (m.walk cancel left taken c via).steps, s.Within m := by
  fun_induction walk m cancel left taken c via with
  | case1 | case2 | case3 | case4 => exact within_stop hc hvia
  | case5 taken c via haccept hreject hcancel more ht =>
    -- no transition is there: one more step leads to the rejecting state
    intro s hs
    obtain rfl | hs := List.mem_cons.1 hs
    · exact ⟨hc, hvia⟩
    · have hnone : ∀ t ∈ (none : Option Transition), t ∈ m.transitions :=
        fun t ht => absurd ht (Option.not_mem_none t)
      exact within_stop hm.2.2.2.1 hnone s hs
  | case6 taken c via haccept hreject hcancel more t ht ih =>
    have hmem := List.mem_of_find?_eq_some ht
    have hnext : .text (m.fire c t).state ∈ m.states := (hm.2.2.2.2.2.2 t hmem).2
    intro s hs
    obtain rfl | hs := List.mem_cons.1 hs
    · exact ⟨hc, hvia⟩
    · exact ih hnext (fun u hu => Option.mem_some.1 hu ▸ hmem) s hs

/-- **The steps** of a run are within the machine. -/
theorem within_run (hm : m.Valid) (input : Text) (budget : Budget) (cancel : Cancellation) :
    ∀ s ∈ (m.run input budget cancel).steps, s.Within m :=
  within_walk hm cancel (stepLimit budget) 0 hm.2.1 (fun t ht => absurd ht (Option.not_mem_none t))

end Machine

end Turing

end FormalMachines
