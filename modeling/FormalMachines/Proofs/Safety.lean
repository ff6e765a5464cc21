import FormalMachines.Proofs.ContextFree.Document
import FormalMachines.Proofs.ContextFree.Safety
import FormalMachines.Proofs.Finite.Safety
import FormalMachines.Proofs.Pushdown.Safety
import FormalMachines.Proofs.Turing.Safety

/-!
# FormalMachines.Proofs.Safety

What was read from a definition can be run.

The checks of a definition are as strong as its runs rely on.  A run of a finite automaton, a
pushdown automaton or a Turing machine gives a result, and its steps name declared states
only.  A search for a derivation finds everything that it looks up, and the symbols of its
forms are declared; it gives a result too, unless what it adds up comes out of range, for
which it takes a right side of many symbols or many non-terminals (`Grammar.ceiling`).
-/

namespace FormalMachines

/-- **A definition that was read** can be run. -/
theorem runs_of_ofJson (definition : Json) :
    (∀ a, Finite.Automaton.ofJson definition = .ok a →
      (∀ states, a.epsilonClosure? states = some (a.epsilonClosure states)) ∧
      ∀ mode epsilonMode, Finite.Mode.Named mode → Finite.EpsilonMode.Named epsilonMode →
        ∀ input cancel, ∃ r, a.simulate mode epsilonMode input cancel = .ok r ∧
          ∀ s ∈ r.run.steps, ∀ q ∈ s.named, q ∈ a.names) ∧
    (∀ a, Pushdown.Automaton.ofJson definition = .ok a →
      ∀ mode, Pushdown.Mode.Named mode →
        ∀ input budget cancel, ∃ r, a.simulate mode input budget cancel = .ok r ∧
          ∀ s ∈ r.run.steps, ∀ q ∈ s.named, .text q ∈ a.states) ∧
    (∀ m, Turing.Machine.ofJson definition = .ok m →
      ∀ input budget cancel,
        m.runIndexed? input budget cancel =
          some ((m.run input budget cancel).map Turing.Step.indexed) ∧
        ∀ s ∈ (m.run input budget cancel).steps, ∀ q ∈ s.named, .text q ∈ m.states) ∧
    ∀ g, ContextFree.Grammar.ofJson definition = .ok g →
      ∀ target budget cancel,
        (g.ceiling (ContextFree.depthLimit budget) < ContextFree.Cost.range →
          g.attempt target budget cancel = .ok (g.derive target budget cancel)) ∧
        (g.attempt target budget cancel = .ok (g.derive target budget cancel) ∨
          ∃ n, ContextFree.Cost.range ≤ n ∧ n ≤ g.ceiling (ContextFree.depthLimit budget) ∧
            g.attempt target budget cancel = .error (.value (.outOfRange n))) ∧
        ∀ step ∈ (g.derive target budget cancel).derivation, ∀ s ∈ step.form, g.Declares s := by
  refine ⟨fun a ha => ⟨a.epsilonClosure?_eq_some, ?_⟩, fun a ha => ?_, fun m hm => ?_,
    fun g hg => ?_⟩
  · intro mode epsilonMode hmode hepsilon input cancel
    have hvalid := (Finite.Automaton.consistent_ofJson ha).valid
    obtain ⟨r, hr, hwithin⟩ :=
      Finite.Automaton.exists_simulate hvalid hmode hepsilon input cancel
    exact ⟨r, hr, fun s hs => (hwithin s hs).named hvalid⟩
  · intro mode hmode input budget cancel
    have hvalid := Pushdown.Automaton.valid_ofJson ha
    obtain ⟨r, hr, hwithin⟩ := Pushdown.Automaton.exists_simulate hvalid hmode input budget cancel
    exact ⟨r, hr, fun s hs => (hwithin s hs).named hvalid⟩
  · intro input budget cancel
    have hvalid := Turing.Machine.valid_ofJson hm
    have hwithin := Turing.Machine.within_run hvalid input budget cancel
    exact ⟨m.runIndexed?_eq_some input budget cancel, fun s hs => (hwithin s hs).named hvalid⟩
  · intro target budget cancel
    have hvalid := ContextFree.Grammar.valid_ofJson hg
    have hreckons := ContextFree.Grammar.reckons_attempt hvalid target budget cancel
    exact ⟨hreckons.eq_ok, hreckons.eq_ok_or, g.derive_declares hvalid target budget cancel⟩

/-- A definition that is read as each of the four. -/
def fourfold : Json :=
  .object [("states", .texts ["p", "q", "r"]), ("alphabet", .list []),
    ("transitions", .list [.object [("from", .text "p"), ("to", .text "q"), ("symbol", .text "a"),
      ("fromState", .text "p"), ("inputSymbol", .text "a"), ("popSymbol", .text ""),
      ("toState", .text "q"), ("currentState", .text "p"), ("readSymbol", .text "a"),
      ("writeSymbol", .text "b"), ("moveDirection", .text "l"), ("nextState", .text "p")]]),
    ("startState", .text "p"), ("initialStackSymbol", .text "Z"), ("acceptState", .text "q"),
    ("rejectState", .text "r"), ("blankSymbol", .text "_"), ("terminals", .texts ["a"]),
    ("nonTerminals", .texts ["S"]), ("startSymbol", .text "S"),
    ("productions", .list [.object [("left", .text "S"), ("right", .text "a S ε")],
      .object [("left", .text "S"), ("right", .text "")]])]

/-- The grammar that it is read as. -/
def fourfoldGrammar : ContextFree.Grammar where
  terminals := [.text "a"]
  nonTerminals := [.text "S"]
  productions := [⟨"S", ["a", "S", epsilon]⟩, ⟨"S", []⟩]
  start := "S"

theorem runs_of_ofJson_fourfold :
    (∃ a, Finite.Automaton.ofJson fourfold = .ok a ∧ Finite.Mode.Named (.text "NFA") ∧
      Finite.EpsilonMode.Named (.text "closure") ∧
      ∃ r, a.simulate (.text "NFA") (.text "closure") "aa" .never = .ok r ∧
        ∀ s ∈ r.run.steps, ∀ q ∈ s.named, q ∈ a.names) ∧
    (∃ a, Pushdown.Automaton.ofJson fourfold = .ok a ∧ Pushdown.Mode.Named (.text "search") ∧
      ∃ r, a.simulate (.text "search") "aa" {} .never = .ok r ∧
        ∀ s ∈ r.run.steps, ∀ q ∈ s.named, .text q ∈ a.states) ∧
    (∃ m, Turing.Machine.ofJson fourfold = .ok m ∧
      m.runIndexed? "a" {} .never = some ((m.run "a" {} .never).map Turing.Step.indexed) ∧
      ∀ s ∈ (m.run "a" {} .never).steps, ∀ q ∈ s.named, .text q ∈ m.states) ∧
    ContextFree.Grammar.ofJson fourfold = .ok fourfoldGrammar ∧
    fourfoldGrammar.ceiling (ContextFree.depthLimit {}) < ContextFree.Cost.range ∧
    fourfoldGrammar.attempt "aa" {} .never = .ok (fourfoldGrammar.derive "aa" {} .never) ∧
    ∀ step ∈ (fourfoldGrammar.derive "aa" {} .never).derivation,
      ∀ s ∈ step.form, fourfoldGrammar.Declares s := by
  obtain ⟨hfinite, hpushdown, hturing, hgrammar⟩ := runs_of_ofJson fourfold
  have hmode : Finite.Mode.Named (.text "NFA") := .inr ⟨"NFA", rfl, .inr (by decide +kernel)⟩
  have hepsilon : Finite.EpsilonMode.Named (.text "closure") := .inr rfl
  have hsearch : Pushdown.Mode.Named (.text "search") := .inr rfl
  have hread : ContextFree.Grammar.ofJson fourfold = .ok fourfoldGrammar := rfl
  have hceiling : fourfoldGrammar.ceiling (ContextFree.depthLimit {}) < ContextFree.Cost.range := by
    decide +kernel
  obtain ⟨hattempt, -, hdeclared⟩ := hgrammar fourfoldGrammar hread "aa" {} .never
  exact ⟨⟨_, rfl, hmode, hepsilon, (hfinite _ rfl).2 _ _ hmode hepsilon _ _⟩,
    ⟨_, rfl, hsearch, hpushdown _ rfl _ hsearch _ _ _⟩, ⟨_, rfl, hturing _ rfl _ _ _⟩,
    hread, hceiling, hattempt hceiling, hdeclared⟩

end FormalMachines
