import FormalMachines.Proofs.Finite.Places
import FormalMachines.Proofs.Finite.Simulation

/-!
# FormalMachines.Proofs.Finite.EpsilonInput

Inputs that hold the code point `ε`, where `ε` is read as the empty word.

The subset automaton has no letter for `ε`, so it rejects every such input
(`not_recognises_subsetAutomaton`).  The nondeterministic run looks moves up by the code point
that it reads: it makes an `ε`-move silently, and makes it as well where the input spells `ε`.
So it accepts an input that it would accept without its `ε`s (`Reads.erase`), if some of the
`ε`-moves on the way can be spelled out (`Reads.spell`).  The two runs differ on some input
exactly if an `ε`-move takes part in accepting any word (`closure_runs_agree_iff`).
-/

namespace FormalMachines.Finite

variable {mode : EpsilonMode} {path : List Transition} {word : Text}

/-! ## Words that a path reads -/

/-- What a path reads it also reads without the `ε`s. -/
theorem Reads.erase (h : Reads .closure path word) :
    Reads .closure path (word.filter (· ≠ .char 'ε')) := by
  induction h with
  | nil => exact .nil
  | @letter t path c word label _ ih =>
      by_cases hc : c = .char 'ε'
      · have hsilent : t.isEpsilon := Transition.isEpsilon_iff.2 (by rw [label, hc]; rfl)
        rw [List.filter_cons_of_neg (by simp [hc])]
        exact .silent rfl hsilent ih
      · rw [List.filter_cons_of_pos (by simp [hc])]
        exact .letter label ih
  | silent reading label _ ih => exact .silent reading label ih

/-- A path that reads an `ε` makes an `ε`-move. -/
theorem Reads.exists_isEpsilon (h : Reads mode path word) (hword : .char 'ε' ∈ word) :
    ∃ t ∈ path, t.isEpsilon := by
  induction h with
  | nil => exact absurd hword List.not_mem_nil
  | @letter t path c word label _ ih =>
      obtain rfl | hrest := List.mem_cons.1 hword
      · exact ⟨t, List.mem_cons_self, Transition.isEpsilon_iff.2 label⟩
      · obtain ⟨u, hu, hsilent⟩ := ih hrest
        exact ⟨u, List.mem_cons_of_mem t hu, hsilent⟩
  | @silent t path word _ label _ _ => exact ⟨t, List.mem_cons_self, label⟩

/-- A path that makes an `ε`-move can read an `ε` for it. -/
theorem Reads.spell (h : Reads .closure path word) (hpath : ∃ t ∈ path, t.isEpsilon) :
    ∃ spelled, .char 'ε' ∈ spelled ∧ Reads .closure path spelled := by
  induction h with
  | nil =>
      obtain ⟨t, ht, _⟩ := hpath
      exact absurd ht List.not_mem_nil
  | @letter t path c word label rest ih =>
      obtain ⟨u, hu, hsilent⟩ := hpath
      obtain rfl | hu := List.mem_cons.1 hu
      · have hc : symbolOf c = symbolOf (.char 'ε') :=
          label.symm.trans (Transition.isEpsilon_iff.1 hsilent)
        rw [symbolOf_inj] at hc
        exact ⟨c :: word, hc ▸ List.mem_cons_self, .letter label rest⟩
      · obtain ⟨spelled, hmem, hreads⟩ := ih ⟨u, hu, hsilent⟩
        exact ⟨c :: spelled, List.mem_cons_of_mem c hmem, .letter label hreads⟩
  | @silent t path word _ label rest _ =>
      exact ⟨.char 'ε' :: word, List.mem_cons_self,
        .letter (Transition.isEpsilon_iff.1 label) rest⟩

namespace Automaton

variable {a : Automaton} {letters : List Atom} {addDead : Bool}

/-! ## The subset automaton -/

/-- A word with a symbol that no move has is not recognised. -/
theorem not_recognises_of_mem {x : Node} {s : Atom} {word : List Atom}
    (hmoves : ∀ t ∈ a.transitions, ¬ t.symbol.Same s) (hs : s ∈ word) :
    ¬ a.Recognises x word := by
  obtain ⟨front, back, rfl⟩ := List.append_of_mem hs
  have hstuck : a.successor (a.after x front) s = none := by
    cases a.after x front with
    | none => rfl
    | some p =>
        rw [successor_some, Option.eq_none_iff_forall_ne_some]
        intro q hq
        obtain ⟨t, ht, _, hsame, _⟩ := exists_move_of_next? hq
        exact hmoves t ht hsame
  rw [recognises_append_iff, recognises_cons_iff, hstuck]
  exact a.not_recognises_none back

/-- **The subset automaton** recognises no input that holds an `ε`, from any of its states. -/
theorem not_recognises_subsetAutomaton (hletters : a.letters .closure = .ok letters) (x : Node)
    {input : Text} (hinput : .char 'ε' ∈ input) :
    ¬ (a.subsetAutomaton .closure letters addDead).Recognises x (input.map symbolOf) := by
  apply not_recognises_of_mem _ (List.mem_map_of_mem (f := symbolOf) hinput)
  intro t ht hsame
  obtain ⟨_, _, symbol, hsymbol, _, _, rfl⟩ := mem_transitions_subsetAutomaton_iff.1 ht
  have hepsilon : symbol = .text epsilon := Atom.key_eq_text_iff.1 hsame
  have hletter := isLetter_of_mem_letters hletters hsymbol
  simp [EpsilonMode.isLetter, hepsilon] at hletter

/-! ## Both runs -/

/-- Whether an `ε`-move takes part in accepting some word. -/
def AcceptsSilently (a : Automaton) : Prop :=
  ∃ path, ∃ q ∈ a.accepting, a.Path a.start path q ∧ (∃ word, Reads .closure path word) ∧
    ∃ t ∈ path, t.isEpsilon

theorem Accepts.erase {input : Text} (h : a.Accepts .closure input) :
    a.Accepts .closure (input.filter (· ≠ .char 'ε')) := by
  obtain ⟨q, hq, path, hpath, hreads⟩ := h
  exact ⟨q, hq, path, hpath, hreads.erase⟩

/-- Some input that holds an `ε` is accepted if an `ε`-move takes part in accepting a word. -/
theorem acceptsSilently_iff :
    a.AcceptsSilently ↔ ∃ input, .char 'ε' ∈ input ∧ a.Accepts .closure input := by
  constructor
  · intro ⟨path, q, hq, hpath, ⟨_, hreads⟩, hmove⟩
    obtain ⟨spelled, hmem, hspelled⟩ := hreads.spell hmove
    exact ⟨spelled, hmem, q, hq, path, hpath, hspelled⟩
  · intro ⟨input, hinput, q, hq, path, hpath, hreads⟩
    exact ⟨path, q, hq, hpath, ⟨input, hreads⟩, hreads.exists_isEpsilon hinput⟩

/-- **Where `ε` is the empty word**, the deterministic run on the subset automaton rejects each
input that holds an `ε`.  The nondeterministic run accepts such an input exactly if a path
that reads it leads from the start to an accepting state; then it accepts the input without
its `ε`s too.  The two agree on all such inputs exactly if no `ε`-move takes part in accepting
any word. -/
theorem closure_runs_agree_iff {a d : Automaton} {addDead : Bool}
    (hd : a.determinise (.text "closure") addDead = .ok d) :
    (∀ input, .char 'ε' ∈ input →
      (d.runDfa input .never).accepted = false ∧
      ∃ n, a.simulateNfa (.text "closure") input .never = .ok n ∧
        (n.accepted ↔
          ∃ path, ∃ q ∈ a.accepting, a.Path a.start path q ∧ Reads .closure path input) ∧
        (n.accepted →
          (a.runNfa .closure (input.filter (· ≠ .char 'ε')) .never).accepted)) ∧
    ((∀ input, .char 'ε' ∈ input → ∀ n, a.simulateNfa (.text "closure") input .never = .ok n →
        n.accepted = (d.runDfa input .never).accepted) ↔
      ¬ a.AcceptsSilently) := by
  obtain ⟨mode, letters, hmode, hletters, rfl, -⟩ := determinise_eq_ok hd
  obtain rfl : EpsilonMode.closure = mode := Except.ok.inj hmode
  have hdfa : ∀ input, .char 'ε' ∈ input →
      ((a.subsetAutomaton .closure letters addDead).runDfa input .never).accepted = false := by
    intro input hinput
    rw [← Bool.not_eq_true, accepted_runDfa_iff]
    exact not_recognises_subsetAutomaton hletters _ hinput
  have hnfa : ∀ input, a.simulateNfa (.text "closure") input .never =
      .ok (a.runNfa .closure input .never) := fun _ => rfl
  constructor
  · intro input hinput
    refine ⟨hdfa input hinput, _, hnfa input, ?_, fun haccepted => ?_⟩
    · rw [accepted_runNfa_iff]
      exact ⟨fun ⟨q, hq, path, h⟩ => ⟨path, q, hq, h⟩, fun ⟨path, q, hq, h⟩ => ⟨q, hq, path, h⟩⟩
    · rw [accepted_runNfa_iff] at haccepted ⊢
      exact haccepted.erase
  · rw [acceptsSilently_iff]
    constructor
    · intro hagree ⟨input, hinput, haccepts⟩
      have haccepted := (a.accepted_runNfa_iff .closure input).2 haccepts
      rw [hagree input hinput _ (hnfa input), hdfa input hinput] at haccepted
      cases haccepted
    · intro hsilent input hinput n hn
      obtain rfl := Except.ok.inj ((hnfa input).symm.trans hn)
      rw [hdfa input hinput, ← Bool.not_eq_true, accepted_runNfa_iff]
      exact fun haccepts => hsilent ⟨input, hinput, haccepts⟩

/-- A state that accepts and reads `a`, and an `ε`-move from it to a state that does not. -/
def sidestep : Automaton where
  states := [⟨"p", true, true⟩, ⟨"q", false, false⟩]
  alphabet := [.text "a"]
  transitions := [⟨"p", "p", .text "a"⟩, ⟨"p", "q", .text epsilon⟩]
  start := "p"
  accepting := ["p"]

/-- Its subset automaton. -/
def sidestepSets : Automaton := sidestep.subsetAutomaton .closure [.text "a"] false

/-- The `ε`-move leads where no move leads on. -/
theorem not_acceptsSilently_sidestep : ¬ sidestep.AcceptsSilently := by
  intro ⟨path, q, hq, hpath, _, t, ht, hsilent⟩
  obtain ⟨front, back, rfl⟩ := List.append_of_mem ht
  obtain ⟨_, _, hrest⟩ := path_append_iff.1 hpath
  obtain ⟨hmem, _, hback⟩ := path_cons_iff.1 hrest
  have hmove : t = ⟨"p", "q", .text epsilon⟩ := by
    simp only [sidestep, List.mem_cons, List.not_mem_nil, or_false] at hmem
    obtain rfl | rfl := hmem
    · exact absurd hsilent (by decide)
    · rfl
  have hend : q = "q" := by
    cases back with
    | nil => rw [← path_nil_iff.1 hback, hmove]
    | cons u back =>
        obtain ⟨hu, hsource, _⟩ := path_cons_iff.1 hback
        rw [hmove] at hsource
        simp only [sidestep, List.mem_cons, List.not_mem_nil, or_false] at hu
        obtain rfl | rfl := hu <;> exact absurd hsource (by decide)
  rw [hend] at hq
  exact absurd hq (by decide)

theorem closure_runs_agree_iff_sidestep :
    sidestep.determinise (.text "closure") false = .ok sidestepSets ∧
      ∀ input, .char 'ε' ∈ input → ∀ n,
        sidestep.simulateNfa (.text "closure") input .never = .ok n →
          n.accepted = (sidestepSets.runDfa input .never).accepted := by
  have hd : sidestep.determinise (.text "closure") false = .ok sidestepSets := by rfl
  exact ⟨hd, (closure_runs_agree_iff hd).2.2 not_acceptsSilently_sidestep⟩

/-- A state and an `ε`-move from it to a state that accepts. -/
def leap : Automaton where
  states := [⟨"p", true, false⟩, ⟨"q", false, true⟩]
  alphabet := [.text "a"]
  transitions := [⟨"p", "q", .text epsilon⟩]
  start := "p"
  accepting := ["q"]

/-- The runs differ where the input spells the `ε`-move out. -/
theorem closure_runs_differ_leap : leap.Valid ∧ .char 'ε' ∈ Text.ofString "ε" ∧
    ∃ d n, leap.determinise (.text "closure") false = .ok d ∧
      leap.simulateNfa (.text "closure") "ε" .never = .ok n ∧ n.accepted = true ∧
      (d.runDfa "ε" .never).accepted = false := by
  refine ⟨by decide, by decide, leap.subsetAutomaton .closure [.text "a"] false,
    leap.runNfa .closure "ε" .never, by rfl, by rfl, by rfl, by rfl⟩

end Automaton

end FormalMachines.Finite
