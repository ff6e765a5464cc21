import FormalMachines.Proofs.Finite.Chain

/-!
# FormalMachines.Proofs.Finite.RoundTrip

Automata survive being written.

An automaton that was read, or that constructions made of one that was, is consistent
(`Built.consistent`).  What it is written as is therefore read as the same automaton, if its
moves have names and symbols that can be read: texts that are not empty.  Else the first move
that has not decides which member is missing (`ofJson_toJson_of_built`).  Empty names come
from nested definitions, other symbols from alphabets whose letters lead to a dead state.
-/

namespace FormalMachines.Finite

/-- Whether the names and the symbol of a move are texts that are not empty. -/
def Transition.Spelled (t : Transition) : Prop :=
  t.source ≠ [] ∧ t.target ≠ [] ∧ ∃ s, s ≠ [] ∧ t.symbol = .text s

theorem Transition.missing?_eq_none_iff {t : Transition} : t.missing? = none ↔ t.Spelled := by
  have hsymbol : t.symbol.text?.getD [] ≠ [] ↔ ∃ s, s ≠ [] ∧ t.symbol = .text s := by
    cases t.symbol <;> simp [Atom.text?]
  rw [Spelled, ← hsymbol, missing?]
  grind

namespace Automaton

variable {a b : Automaton}

theorem missing?_eq_none_iff : a.missing? = none ↔ ∀ t ∈ a.transitions, t.Spelled := by
  simp only [missing?, List.findSome?_eq_none_iff, Transition.missing?_eq_none_iff]

theorem exists_missing?_eq_some_iff :
    (∃ key, a.missing? = some key) ↔ ∃ t ∈ a.transitions, ¬ t.Spelled := by
  rw [← Option.ne_none_iff_exists', Ne, missing?_eq_none_iff]
  push Not
  rfl

/-- Whether an automaton was read from a definition, or constructions made it of one that
was. -/
inductive Built : Automaton → Prop where
  | read {definition : Json} {a : Automaton} (reads : ofJson definition = .ok a) : Built a
  | construct {a b : Automaton} {t : Transformation} (built : Built a)
      (yields : t.apply a = .ok b) : Built b

/-- What a construction yields is consistent. -/
theorem consistent_apply {t : Transformation} (h : t.apply a = .ok b) : b.Consistent := by
  cases t with
  | determinise epsilonMode addDead =>
      obtain ⟨mode, letters, -, -, rfl, hvalid⟩ := determinise_eq_ok h
      exact consistent_subsetAutomaton hvalid
  | minimise =>
      obtain ⟨-, hrest⟩ := of_throw_eq_ok h
      obtain ⟨letters, hletters, -⟩ := bind_eq_ok hrest
      obtain ⟨-, rfl⟩ := (minimise_eq_ok_iff hletters).1 h
      exact consistent_minimalAutomaton hletters
  | rebuild => exact consistent_ofJson h

theorem Built.consistent (h : a.Built) : a.Consistent := by
  cases h with
  | read reads => exact consistent_ofJson reads
  | construct _ yields => exact consistent_apply yields

/-- **An automaton survives being written.**  Let it be read from a definition, or let subset
constructions, minimisations and readings of what was written make it of one that was.  If
the names and symbols of its moves are texts that are not empty, what it is written as is
read as the same automaton.  Else reading fails for the first member of a move's record that
is none. -/
theorem ofJson_toJson_of_built (ha : a.Built) :
    ((∀ t ∈ a.transitions, t.Spelled) → ofJson a.toJson = .ok a) ∧
    ((∃ t ∈ a.transitions, ¬ t.Spelled) → ∃ key, a.missing? = some key ∧
      ofJson a.toJson = .error (.definition (.missing key))) := by
  have hread := ofJson_toJson_eq ha.consistent
  constructor
  · intro hspelled
    rw [hread, missing?_eq_none_iff.2 hspelled]
    rfl
  · intro hnot
    obtain ⟨key, hkey⟩ := exists_missing?_eq_some_iff.2 hnot
    refine ⟨key, hkey, ?_⟩
    rw [hread, hkey]
    rfl

/-- A definition with flags and nested moves whose alphabet holds a number. -/
def mixedLetters : Json := .object [
  ("states", .list [.object [("name", .text "p"), ("isStart", .bool true)], .text "q"]),
  ("alphabet", .list [.text "a", .integer 1]),
  ("transitions", .object [("p", .object [("a", .text "q")])]),
  ("acceptStates", .texts ["q"])]

/-- The automaton that the definition gives. -/
def mixed : Automaton where
  states := [⟨"p", true, false⟩, ⟨"q", false, true⟩]
  alphabet := [.text "a", .integer 1]
  transitions := [⟨"p", "q", .text "a"⟩]
  start := "p"
  accepting := ["q"]

/-- The subset automaton survives being written, but not with its dead state, which the number
leads to. -/
theorem ofJson_toJson_of_built_mixed : ofJson mixedLetters = .ok mixed ∧
    (∃ b, mixed.determinise (.text "literal") false = .ok b ∧ ofJson b.toJson = .ok b) ∧
    ∃ b, mixed.determinise (.text "literal") true = .ok b ∧
      ofJson b.toJson = .error (.definition (.missing "symbol")) := by
  have hread : ofJson mixedLetters = .ok mixed := by rfl
  let sets := mixed.subsetAutomaton .literal [.text "a", .integer 1]
  have hsets : mixed.determinise (.text "literal") false = .ok (sets false) := by rfl
  have hdead : mixed.determinise (.text "literal") true = .ok (sets true) := by rfl
  have hbuilt : ∀ addDead, mixed.determinise (.text "literal") addDead = .ok (sets addDead) →
      (sets addDead).Built := fun addDead h =>
    .construct (t := .determinise (.text "literal") addDead) (.read hread) h
  have hspelled : (sets false).missing? = none := by decide +kernel
  have hmissing : (sets true).missing? = some "symbol" := by decide +kernel
  refine ⟨hread, ⟨sets false, hsets, ?_⟩, sets true, hdead, ?_⟩
  · exact (ofJson_toJson_of_built (hbuilt false hsets)).1 (missing?_eq_none_iff.1 hspelled)
  · have hnot := exists_missing?_eq_some_iff.1 ⟨_, hmissing⟩
    obtain ⟨key, hkey, herror⟩ := (ofJson_toJson_of_built (hbuilt true hdead)).2 hnot
    obtain rfl : key = "symbol" := Option.some.inj (hkey.symm.trans hmissing)
    exact herror

end Automaton

end FormalMachines.Finite
