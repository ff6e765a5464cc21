import FormalMachines.Declaration
import FormalMachines.Finite.Basic

/-!
# FormalMachines.Finite.Draft

Finite automata before the check that every name in use is declared.

A draft may name anything as an accepting state or as the target of a move.  `validate`
makes an automaton of it or reports the first fault: a repeated state, then the start
state, the accepting states and the moves, each in order, a move's source before its
target.  `checked` puts an automaton that was put together otherwise to the same check;
it succeeds exactly on the valid ones (`checked_eq_ok_iff`).
-/

namespace FormalMachines

namespace Finite

/-- A move whose target is not checked. -/
structure DraftMove where
  source : Text
  target : Json
  symbol : Atom

/-- An automaton whose names are not checked. -/
structure Draft where
  states : List State
  alphabet : List Json
  moves : List DraftMove
  start : Text
  accepting : List Atom

namespace DraftMove

/-- The move between declared states. -/
def validate (m : DraftMove) (names : List Text) : Except Fault Transition := do
  let source ← declaredName .transitionSource names (.text m.source)
  let target ← declaredName .transitionTarget names m.target
  return ⟨source, target, m.symbol⟩

end DraftMove

namespace Draft

/-- The automaton of a draft whose names are all declared. -/
def validate (d : Draft) : Except Fault Automaton := do
  let names := d.states.map (·.name)
  if ¬ names.Nodup then throw (.definition (.repeated "states"))
  let start ← declaredName .startState names (.text d.start)
  let accepting ← d.accepting.mapM fun a => declaredName .acceptingState names (.atom a)
  let transitions ← d.moves.mapM (·.validate names)
  return ⟨d.states, d.alphabet, transitions, start, accepting⟩

end Draft

/-- The draft of a move. -/
def Transition.toDraft (t : Transition) : DraftMove := ⟨t.source, .text t.target, t.symbol⟩

namespace Automaton

/-- The draft of an automaton. -/
def toDraft (a : Automaton) : Draft :=
  ⟨a.states, a.alphabet, a.transitions.map (·.toDraft), a.start, a.accepting.map .text⟩

/-- The automaton itself if it is valid, else the first fault. -/
def checked (a : Automaton) : Except Fault Automaton := a.toDraft.validate

/-! ## The check accepts exactly the valid automata -/

private theorem mapM_eq_ok_self_iff {α β : Type} {f : β → Except Fault α} {g : α → β}
    {P : α → Prop} (hf : ∀ x y, f (g x) = .ok y ↔ P x ∧ y = x) (xs ys : List α) :
    (xs.map g).mapM f = .ok ys ↔ (∀ x ∈ xs, P x) ∧ ys = xs := by
  induction xs generalizing ys with
  | nil => simp [pure, Except.pure, eq_comm]
  | cons x xs ih =>
    simp only [List.map_cons, List.mapM_cons, bind, Except.bind, pure, Except.pure]
    cases hx : f (g x) with
    | error e =>
      have : ¬ P x := fun h => by have := (hf x x).2 ⟨h, rfl⟩; rw [hx] at this; cases this
      simp [this]
    | ok y =>
      obtain ⟨hp, rfl⟩ := (hf x y).1 hx
      cases hxs : (xs.map g).mapM f with
      | error e =>
        have : ¬ ∀ z ∈ xs, P z := fun h => by
          have := (ih xs).2 ⟨h, rfl⟩; rw [hxs] at this; cases this
        simp [hp, this]
      | ok zs =>
        obtain ⟨hall, rfl⟩ := (ih zs).1 hxs
        simp only [Except.ok.injEq, List.mem_cons, forall_eq_or_imp, hp, true_and]
        exact ⟨fun h => ⟨hall, h.symm⟩, fun h => h.2.symm⟩

private theorem declaredName_eq_ok_iff (role : Role) (names : List Text) (s r : Text) :
    declaredName role names (.text s) = .ok r ↔ s ∈ names ∧ r = s := by
  rw [declaredName_text]
  split
  · next h => simp [h, eq_comm]
  · next h => simp [h]

private theorem validate_move_eq_ok_iff (names : List Text) (t r : Transition) :
    t.toDraft.validate names = .ok r ↔ (t.source ∈ names ∧ t.target ∈ names) ∧ r = t := by
  obtain ⟨source, target, symbol⟩ := t
  by_cases hs : source ∈ names <;> by_cases ht : target ∈ names <;>
    simp [Transition.toDraft, DraftMove.validate, hs, ht, bind, Except.bind, pure, Except.pure,
      eq_comm]

theorem checked_eq_ok_iff (a b : Automaton) : a.checked = .ok b ↔ a.Valid ∧ b = a := by
  have haccept := mapM_eq_ok_self_iff (g := Atom.text)
    (f := fun v => declaredName .acceptingState a.names (.atom v))
    (fun s r => declaredName_eq_ok_iff .acceptingState a.names s r) a.accepting
  have hmoves := mapM_eq_ok_self_iff (g := Transition.toDraft)
    (f := fun m => m.validate a.names) (validate_move_eq_ok_iff a.names) a.transitions
  unfold checked toDraft Draft.validate Valid
  change _ at haccept
  simp only [show a.states.map (·.name) = a.names from rfl, declaredName_text]
  by_cases hn : a.names.Nodup <;> by_cases hs : a.start ∈ a.names <;>
    simp only [hn, hs, not_true, not_false_iff, if_true, if_false, bind, Except.bind, pure,
      Except.pure, throw, throwThe, MonadExceptOf.throw, false_and, true_and, reduceCtorEq]
  cases hacc : (a.accepting.map Atom.text).mapM
      fun v => declaredName .acceptingState a.names (.atom v) with
  | error e =>
    have : ¬ ∀ s ∈ a.accepting, s ∈ a.names := fun h => by
      have := (haccept _).2 ⟨h, rfl⟩; rw [hacc] at this; cases this
    simp [this]
  | ok accepting =>
    obtain ⟨hall, rfl⟩ := (haccept _).1 hacc
    simp only
    cases htr : (a.transitions.map Transition.toDraft).mapM (·.validate a.names) with
    | error e =>
      have : ¬ ∀ t ∈ a.transitions, t.source ∈ a.names ∧ t.target ∈ a.names := fun h => by
        have := (hmoves _).2 ⟨h, rfl⟩; rw [htr] at this; cases this
      simp [this]
    | ok transitions =>
      obtain ⟨hall', rfl⟩ := (hmoves _).1 htr
      simp only [Except.ok.injEq]
      exact ⟨fun h => ⟨⟨hall, hall'⟩, h.symm⟩, fun h => h.2.symm⟩

end Automaton

end Finite

end FormalMachines
