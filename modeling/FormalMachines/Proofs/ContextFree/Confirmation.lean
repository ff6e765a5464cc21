import FormalMachines.ContextFree.Derivation
import FormalMachines.Proofs.Checks
import FormalMachines.Proofs.ContextFree.Leftmost

/-!
# FormalMachines.Proofs.ContextFree.Confirmation

What a replay confirms.

A replay goes through exactly if the recorded steps *retrace* a rewriting (`Retraces`): a step
that records a production has its left side at the recorded place of the form before it, and
records the form that the production makes of that one.  Whether the production is one of the
grammar is not asked.  Where each is (`Grammar.Owns`), the replay arrives at a form that the
grammar derives in as many steps, and every form that it derives is arrived at in this way
(`replay_confirms`).  Where one is not, the replay may arrive at any form
(`replay_foreign`).
-/

namespace FormalMachines.ContextFree

/-! ## Retracing -/

/-- Whether recorded steps lead from one form to another, each by the production, at the place
and to the form that it records; a step that records no production is passed over. -/
inductive Retraces : Form → List DerivationStep → Form → Prop where
  | nil (form : Form) : Retraces form [] form
  | idle {form last : Form} {step : DerivationStep} {steps : List DerivationStep}
      (production : step.production = none) (rest : Retraces form steps last) :
      Retraces form (step :: steps) last
  | apply {front back last : Form} {p : Production} {step : DerivationStep}
      {steps : List DerivationStep} (production : step.production = some p)
      (index : step.index = some front.length) (form : step.form = front ++ p.symbols ++ back)
      (rest : Retraces step.form steps last) :
      Retraces (front ++ p.left :: back) (step :: steps) last

variable {form next last : Form} {step : DerivationStep} {steps : List DerivationStep}
  {p : Production} {i : Nat}

theorem symbolAt?_eq_some_iff {index : Int} {s : Text} : symbolAt? form index = some s ↔
    ∃ front back, form = front ++ s :: back ∧ index = front.length := by
  constructor
  · intro h
    unfold symbolAt? at h
    split at h
    · rename_i hpos
      obtain ⟨hlt, hs⟩ := List.getElem?_eq_some_iff.1 h
      refine ⟨form.take index.toNat, form.drop (index.toNat + 1), ?_, ?_⟩
      · rw [← hs, List.getElem_cons_drop, List.take_append_drop]
      · rw [List.length_take_of_le (Nat.le_of_lt hlt)]
        omega
    · cases h
  · rintro ⟨front, back, rfl, rfl⟩
    simp [symbolAt?]

/-- A production applies where the recorded place has its left side. -/
theorem place?_eq_some_iff : step.place? p form = some i ↔
    ∃ front back, form = front ++ p.left :: back ∧ step.index = some (front.length : Int) ∧
      i = front.length := by
  constructor
  · intro h
    obtain ⟨index, hindex, h⟩ := Option.bind_eq_some_iff.1 h
    obtain ⟨symbol, hsymbol, h⟩ := Option.bind_eq_some_iff.1 h
    split at h
    · rename_i hleft
      obtain ⟨front, back, hform, rfl⟩ := symbolAt?_eq_some_iff.1 hsymbol
      exact ⟨front, back, hleft ▸ hform, hindex, (Option.some.inj h).symm⟩
    · cases h
  · rintro ⟨front, back, hform, hindex, rfl⟩
    have hsymbol := symbolAt?_eq_some_iff.2 ⟨front, back, hform, rfl⟩
    simp [DerivationStep.place?, hindex, hsymbol]

theorem replaceAt_length (front back : Form) (s : Text) (symbols : List Text) :
    replaceAt (front ++ s :: back) front.length symbols = front ++ symbols ++ back := by
  simp [replaceAt]

/-- **One step** goes through exactly if it retraces. -/
theorem replayStep_eq_ok_iff : replayStep form step = .ok next ↔
    (step.production = none ∧ next = form) ∨
      ∃ p front back, step.production = some p ∧ step.index = some (front.length : Int) ∧
        form = front ++ p.left :: back ∧ step.form = front ++ p.symbols ++ back ∧
        next = step.form := by
  constructor
  · intro h
    unfold replayStep at h
    cases hproduction : step.production with
    | none =>
        rw [hproduction] at h
        exact .inl ⟨rfl, (Except.ok.inj h).symm⟩
    | some p =>
        cases hplace : step.place? p form with
        | none => simp [hproduction, hplace] at h
        | some i =>
            obtain ⟨front, back, rfl, hindex, rfl⟩ := place?_eq_some_iff.1 hplace
            simp only [hproduction, hplace, replaceAt_length] at h
            by_cases hform : front ++ p.symbols ++ back = step.form
            · rw [if_pos hform] at h
              have hnext := Except.ok.inj h
              exact .inr ⟨p, front, back, rfl, hindex, rfl, hform.symm, hnext.symm.trans hform⟩
            · rw [if_neg hform] at h
              cases h
  · rintro (⟨hnone, rfl⟩ | ⟨p, front, back, hp, hindex, rfl, hform, rfl⟩)
    · rw [replayStep, hnone]
    · have hplace : step.place? p (front ++ p.left :: back) = some front.length :=
        place?_eq_some_iff.2 ⟨front, back, rfl, hindex, rfl⟩
      simp only [replayStep, hp, hplace, replaceAt_length, hform, if_true]

/-- **A replay** goes through exactly if the steps retrace. -/
theorem foldlM_replayStep_eq_ok_iff :
    steps.foldlM replayStep form = .ok last ↔ Retraces form steps last := by
  constructor
  · intro h
    induction steps generalizing form with
    | nil =>
        rw [← Except.ok.inj h]
        exact .nil _
    | cons step steps ih =>
        rw [List.foldlM_cons] at h
        obtain ⟨next, hstep, hrest⟩ := bind_eq_ok h
        obtain ⟨hnone, rfl⟩ | ⟨p, front, back, hp, hindex, rfl, hform, rfl⟩ :=
          replayStep_eq_ok_iff.1 hstep
        · exact .idle hnone (ih hrest)
        · exact .apply hp hindex hform (ih hrest)
  · intro h
    induction h with
    | nil form => rfl
    | idle hnone _ ih =>
        rw [List.foldlM_cons, replayStep_eq_ok_iff.2 (.inl ⟨hnone, rfl⟩)]
        exact ih
    | @apply front back last p step steps hp hindex hform _ ih =>
        rw [List.foldlM_cons,
          replayStep_eq_ok_iff.2 (.inr ⟨p, front, back, hp, hindex, rfl, hform, rfl⟩)]
        exact ih

namespace Grammar

variable {g : Grammar} {n : Nat}

/-- Whether each recorded production does what one of the grammar does. -/
def Owns (g : Grammar) (steps : List DerivationStep) : Prop :=
  ∀ step ∈ steps, ∀ p, step.production = some p →
    ∃ q ∈ g.productions, q.left = p.left ∧ q.symbols = p.symbols

/-! ## Retracing with productions of the grammar -/

/-- What is retraced with productions of the grammar is a rewriting. -/
theorem Owns.rewrites (howns : g.Owns steps) (h : Retraces form steps last) :
    g.Rewrites form (steps.filterMap (·.production)).length last := by
  induction h with
  | nil form => exact .refl form
  | @idle form last step steps hnone _ ih =>
      rw [List.filterMap_cons_none hnone]
      exact ih fun s hs => howns s (List.mem_cons_of_mem step hs)
  | @apply front back last p step steps hp _ hform _ ih =>
      obtain ⟨q, hq, hleft, hsymbols⟩ := howns step List.mem_cons_self p hp
      have hrest := ih fun s hs => howns s (List.mem_cons_of_mem step hs)
      rw [hform, ← hsymbols] at hrest
      rw [List.filterMap_cons_some hp, ← hleft]
      exact .step hq hrest

/-- A rewriting can be recorded. -/
theorem Rewrites.exists_retraces (h : g.Rewrites form n last) :
    ∃ steps, g.Owns steps ∧ (steps.filterMap (·.production)).length = n ∧
      Retraces form steps last := by
  induction h with
  | refl form => exact ⟨[], nofun, rfl, .nil form⟩
  | @step front back last p n mem _ ih =>
      obtain ⟨steps, howns, hlength, hretraces⟩ := ih
      let step : DerivationStep := ⟨0, front ++ p.symbols ++ back, some p, some front.length⟩
      refine ⟨step :: steps, ?_, ?_, .apply rfl rfl rfl hretraces⟩
      · intro s hs q hq
        obtain rfl | hs := List.mem_cons.1 hs
        · cases hq
          exact ⟨p, mem, rfl, rfl⟩
        · exact howns s hs q hq
      · exact congrArg (· + 1) hlength

/-- The symbols of a form that is derived stood there before or come from productions. -/
theorem Rewrites.mem_or_mem_symbols (h : g.Rewrites form n last) {s : Text} (hs : s ∈ last) :
    s ∈ form ∨ ∃ p ∈ g.productions, s ∈ p.symbols := by
  induction h with
  | refl form => exact .inl hs
  | step mem _ ih =>
      obtain hform | hother := ih hs
      · simp only [List.mem_append] at hform
        obtain (hfront | hsymbols) | hback := hform
        · exact .inl (List.mem_append_left _ hfront)
        · exact .inr ⟨_, mem, hsymbols⟩
        · exact .inl (List.mem_append_right _ (List.mem_cons_of_mem _ hback))
      · exact .inr hother

/-- **What a replay confirms.**  It goes through exactly if the steps retrace a rewriting.  With
productions of the grammar it arrives at a form that the grammar derives from its start
symbol, in as many steps as record a production, and if the form is terminal the text that it
spells is generated.  Conversely each form that is derived is arrived at so. -/
theorem replay_confirms (hg : g.Valid) (form : Form) :
    (∀ steps, g.replay steps = .ok form ↔ Retraces [g.start] steps form) ∧
    (∀ steps, g.Owns steps → g.replay steps = .ok form →
      g.Rewrites [g.start] (steps.filterMap (·.production)).length form ∧
        (g.IsTerminal form → g.Generates (spell form))) ∧
    ∀ n, g.Rewrites [g.start] n form →
      ∃ steps, g.Owns steps ∧ (steps.filterMap (·.production)).length = n ∧
        g.replay steps = .ok form := by
  refine ⟨fun steps => foldlM_replayStep_eq_ok_iff, fun steps howns h => ?_, fun n h => ?_⟩
  · have hrewrites := howns.rewrites (foldlM_replayStep_eq_ok_iff.1 h)
    refine ⟨hrewrites, fun hterminal => ?_⟩
    obtain ⟨ps, -, hderives⟩ := exists_derives_of_rewrites hg hrewrites hterminal
    exact ⟨ps, form, hderives, hterminal, rfl⟩
  · obtain ⟨steps, howns, hlength, hretraces⟩ := h.exists_retraces
    exact ⟨steps, howns, hlength, foldlM_replayStep_eq_ok_iff.2 hretraces⟩

/-- Pairs of letters, of which the second may be left out. -/
def couples : Grammar where
  terminals := [.text "a", .text "b"]
  nonTerminals := [.text "S", .text "T"]
  productions := [⟨"S", ["T", "T"]⟩, ⟨"T", ["a"]⟩, ⟨"T", [epsilon]⟩]
  start := "S"

/-- A record that goes from right to left, with odd numbers, an idle step, and the empty
production written out otherwise. -/
def backwards : List DerivationStep :=
  [⟨7, ["T", "T"], some ⟨"S", ["T", "T"]⟩, some 0⟩, ⟨-1, ["b"], none, some 5⟩,
    ⟨7, ["T"], some ⟨"T", []⟩, some 1⟩, ⟨0, ["a"], some ⟨"T", ["a"]⟩, some 0⟩]

theorem replay_confirms_backwards :
    couples.Valid ∧ couples.Owns backwards ∧ couples.replay backwards = .ok ["a"] ∧
      couples.Rewrites [couples.start] 3 ["a"] ∧ couples.Generates "a" := by
  have hg : couples.Valid := by decide +kernel
  have howns : couples.Owns backwards := by
    unfold Owns
    simp only [backwards, List.forall_mem_cons]
    decide +kernel
  have hreplay : couples.replay backwards = .ok ["a"] := by rfl
  obtain ⟨-, hsound, -⟩ := replay_confirms hg ["a"]
  obtain ⟨hrewrites, hgenerates⟩ := hsound backwards howns hreplay
  exact ⟨hg, howns, hreplay, hrewrites, hgenerates (by decide +kernel)⟩

/-- A record whose last production, which is none of the grammar, replaces a terminal. -/
def foreign : List DerivationStep :=
  [⟨1, ["T", "T"], some ⟨"S", ["T", "T"]⟩, some 0⟩, ⟨2, ["a", "T"], some ⟨"T", ["a"]⟩, some 0⟩,
    ⟨3, ["b", "T"], some ⟨"a", ["b"]⟩, some 0⟩]

/-- It goes through, but no production of the grammar gives the letter that it arrives at. -/
theorem replay_foreign :
    couples.Valid ∧ couples.replay foreign = .ok ["b", "T"] ∧
      ¬ ∃ n, couples.Rewrites [couples.start] n ["b", "T"] := by
  refine ⟨by decide +kernel, by rfl, fun ⟨n, h⟩ => ?_⟩
  have hletter : Text.ofString "b" ∉ [couples.start] ∧
      ∀ p ∈ couples.productions, Text.ofString "b" ∉ p.symbols := by decide +kernel
  obtain hstart | ⟨p, hp, hsymbols⟩ := h.mem_or_mem_symbols (s := "b") List.mem_cons_self
  · exact hletter.1 hstart
  · exact hletter.2 p hp hsymbols

end Grammar

end FormalMachines.ContextFree
