import FormalMachines.Proofs.Finite.Minimal

/-!
# FormalMachines.Proofs.Finite.Naming

What becomes of merged states with the same name.

The minimal automaton is put together by name: blocks that survive with different states
but the same name become one state.  Names are not always different, because the
separator that joins state names may stand in one of them: the states `p` and `q` are
merged to `p_q`, which another state may be called from the start.

* The minimal automaton has as many states as blocks survive exactly if their names are
  different (`length_states_eq_iff`).
* Then it accepts the same texts.  Where each symbol is one code point it does so only then
  (`namesApart_of_sameTexts`), because with fewer states than blocks no automaton can
  (`length_survivors_le`).
-/

namespace FormalMachines.Finite.Automaton

variable {a b : Automaton} {letters : List Atom} {start name : Text}

/-! ## Names and states -/

/-- A state is sent to the name of the block it survives in. -/
theorem merge_of_mem_survivors (hletters : a.letters .literal = .ok letters) {c : Block}
    (hc : c ∈ a.survivors letters) {q : Text} (hq : some q ∈ c) :
    a.merge letters (some q) = some c.name := by
  obtain ⟨hblock, hsink⟩ := mem_survivors_iff.1 hc
  rw [merge_eq hletters hblock hq, if_neg (mt Block.isSink_iff.1 hsink)]

/-- A state that is not sent to the sink survives in some block. -/
theorem exists_survivor (hletters : a.letters .literal = .ok letters) {q : Text}
    (hq : q ∈ a.reachable letters) (h : a.merge letters (some q) = some name) :
    ∃ c ∈ a.survivors letters, some q ∈ c ∧ c.name = name := by
  obtain ⟨c, hc, hqc⟩ := exists_block hletters (some_mem_nodes hq)
  rw [merge_eq hletters hc hqc] at h
  by_cases hsink : c.isSink
  · simp [hsink] at h
  · simp only [hsink, Bool.false_eq_true, if_false, Option.some.injEq] at h
    exact ⟨c, mem_survivors_iff.2 ⟨hc, mt Block.isSink_iff.2 hsink⟩, hqc, h⟩

/-- A state of a block that survives recognises a word. -/
theorem exists_recognised_of_mem_survivors (hletters : a.letters .literal = .ok letters)
    {c : Block} (hc : c ∈ a.survivors letters) {q : Text} (hq : some q ∈ c) :
    ∃ word, a.Recognises (some q) word := by
  by_contra hdead
  rw [not_exists] at hdead
  have hnone : a.SameWords (some q) none :=
    fun word => iff_of_false (hdead word) (a.not_recognises_none word)
  have hnode := some_mem_nodes (mem_reachable_of_mem_survivors hletters hc hq)
  have hmerge := merge_of_mem_survivors hletters hc hq
  rw [(merge_eq_none_iff hletters hnode).2 hnone] at hmerge
  cases hmerge

/-- No block survives exactly if the start state is merged with the sink. -/
theorem survivors_eq_nil_iff (hletters : a.letters .literal = .ok letters) :
    a.survivors letters = [] ↔ a.merge letters (some a.start) = none := by
  constructor
  · intro hnil
    cases hstart : a.merge letters (some a.start) with
    | none => rfl
    | some start =>
        obtain ⟨c, hc, _⟩ := exists_survivor hletters (a.start_mem_reachable letters) hstart
        rw [hnil] at hc
        exact absurd hc List.not_mem_nil
  · intro hstart
    have hempty := (merge_start_eq_none_iff hletters).1 hstart
    apply List.eq_nil_iff_forall_not_mem.2
    intro c hc
    obtain ⟨q, hq⟩ := exists_state_of_mem_survivors hletters hc
    obtain ⟨front, hfront⟩ :=
      exists_word_of_mem_reachable (mem_reachable_of_mem_survivors hletters hc hq)
    obtain ⟨word, hword⟩ := exists_recognised_of_mem_survivors hletters hc hq
    refine hempty ⟨front ++ word, ?_⟩
    rw [recognises_append_iff, hfront]
    exact hword

/-- The states of the minimal automaton are the names of the blocks that survive. -/
theorem mem_names_iff_mem_map_survivors (hletters : a.letters .literal = .ok letters)
    (hstart : a.merge letters (some a.start) = some start) :
    name ∈ (a.minimalAutomaton letters).names ↔
      name ∈ (a.survivors letters).map Block.name := by
  rw [mem_names_minimalAutomaton_iff hstart, List.mem_map]
  constructor
  · intro ⟨q, hq, hmerge⟩
    obtain ⟨c, hc, _, hname⟩ := exists_survivor hletters hq hmerge
    exact ⟨c, hc, hname⟩
  · intro ⟨c, hc, hname⟩
    obtain ⟨q, hq⟩ := exists_state_of_mem_survivors hletters hc
    refine ⟨q, mem_reachable_of_mem_survivors hletters hc hq, ?_⟩
    rw [merge_of_mem_survivors hletters hc hq, hname]

/-- **No state is missing** exactly if the names are different. -/
theorem length_survivors_le_iff (hletters : a.letters .literal = .ok letters)
    (hstart : a.merge letters (some a.start) = some start) :
    (a.survivors letters).length ≤ (a.minimalAutomaton letters).names.length ↔
      a.NamesApart letters := by
  have hnodup := (valid_minimalAutomaton hstart hletters).1
  have hnames : ∀ name, name ∈ (a.minimalAutomaton letters).names ↔
      name ∈ (a.survivors letters).map Block.name :=
    fun name => mem_names_iff_mem_map_survivors hletters hstart
  rw [← List.length_map Block.name, NamesApart,
    ← List.nodup_map_iff_inj_on (nodup_survivors hletters)]
  constructor
  · intro hle
    have hsub := hnodup.subperm fun name hname => (hnames name).1 hname
    exact (hsub.perm_of_length_le hle).nodup_iff.1 hnodup
  · intro hapart
    exact ((List.perm_ext_iff_of_nodup hnodup hapart).2 hnames).length_eq.ge

theorem length_states_eq_iff (hletters : a.letters .literal = .ok letters)
    (hstart : a.merge letters (some a.start) = some start) :
    (a.minimalAutomaton letters).states.length = (a.survivors letters).length ↔
      a.NamesApart letters := by
  have hlength : (a.minimalAutomaton letters).names.length =
      (a.minimalAutomaton letters).states.length := List.length_map _
  have hsub := (valid_minimalAutomaton hstart hletters).1.subperm fun name hname =>
    (mem_names_iff_mem_map_survivors hletters hstart).1 hname
  have hle := hsub.length_le
  rw [List.length_map] at hle
  rw [← length_survivors_le_iff hletters hstart, ← hlength]
  exact ⟨fun h => h.ge, fun h => Nat.le_antisymm hle h⟩

/-! ## Names and languages -/

/-- Blocks that survive are no more than the states of any automaton that accepts the same
texts. -/
theorem length_survivors_le (hletters : a.letters .literal = .ok letters)
    (hsymbols : ∀ t ∈ a.transitions, ∃ c, t.symbol = symbolOf c) (hb : b.Valid)
    (hsame : SameTexts a b) : (a.survivors letters).length ≤ b.names.length := by
  apply length_le_length_names (fun (c : Block) q => some q ∈ c) (nodup_survivors hletters)
    hsymbols _ _ hb hsame
  · intro c hc
    obtain ⟨q, hq⟩ := exists_state_of_mem_survivors hletters hc
    exact ⟨q, hq, exists_word_of_mem_reachable (mem_reachable_of_mem_survivors hletters hc hq),
      exists_recognised_of_mem_survivors hletters hc hq⟩
  · intro c hc d hd p q hp hq hwords
    have hcblock := (mem_survivors_iff.1 hc).1
    have hqnode := some_mem_nodes (mem_reachable_of_mem_survivors hletters hd hq)
    have hqc := (mem_block_iff_sameWords hletters hcblock hp hqnode).2 hwords
    exact eq_of_mem_blocks hletters hcblock (mem_survivors_iff.1 hd).1 hqc hq

/-- The language is kept only if the names are different. -/
theorem namesApart_of_sameTexts (hletters : a.letters .literal = .ok letters)
    (hstart : a.merge letters (some a.start) = some start)
    (hsymbols : ∀ t ∈ a.transitions, ∃ c, t.symbol = symbolOf c)
    (hsame : SameTexts a (a.minimalAutomaton letters)) : a.NamesApart letters :=
  (length_survivors_le_iff hletters hstart).1
    (length_survivors_le hletters hsymbols (valid_minimalAutomaton hstart hletters) hsame)

/-- **Minimisation** of a deterministic automaton, of which the alphabet holds atoms, whatever
the states are called.  Unless no block survives, which leaves the start state alone, there
is a state for each block that survives exactly if their names are different.  If they are,
the same texts are accepted; and if every symbol is a single code point, they are accepted
only if the names are different. -/
theorem minimise_keeps_blocks (hdet : a.isDeterministic)
    (hatoms : ∀ v ∈ a.alphabet, ∃ symbol, v = .atom symbol) :
    ∃ letters m, a.letters .literal = .ok letters ∧ a.minimise = .ok m ∧
      (a.survivors letters ≠ [] →
        (m.states.length = (a.survivors letters).length ↔ a.NamesApart letters)) ∧
      (a.NamesApart letters →
        ∀ text, (m.runDfa text .never).accepted = (a.runDfa text .never).accepted) ∧
      ((∀ t ∈ a.transitions, ∃ c, t.symbol = symbolOf c) →
        (∀ text, (m.runDfa text .never).accepted = (a.runDfa text .never).accepted) →
        a.NamesApart letters) := by
  obtain ⟨letters, hletters⟩ := exists_letters .literal hatoms
  cases hstart : a.merge letters (some a.start) with
  | none =>
      have hnil := (survivors_eq_nil_iff hletters).2 hstart
      have hempty := (merge_start_eq_none_iff hletters).1 hstart
      have heq := minimalAutomaton_eq_emptyLanguage hstart
      have hapart : a.NamesApart letters := by simp [NamesApart, hnil]
      refine ⟨letters, emptyLanguage a.start letters, hletters, ?_, fun h => absurd hnil h, ?_,
        fun _ _ => hapart⟩
      · rw [← heq]
        exact minimise_eq_ok hdet hletters (heq ▸ valid_emptyLanguage _ _)
      · intro _
        apply accepted_eq_iff.2
        exact fun text => iff_of_false (not_recognises_emptyLanguage _ _ _ _)
          (not_exists.1 hempty _)
  | some start =>
      have hmvalid := valid_minimalAutomaton hstart hletters
      refine ⟨letters, a.minimalAutomaton letters, hletters, minimise_eq_ok hdet hletters hmvalid,
        fun _ => length_states_eq_iff hletters hstart, ?_, ?_⟩
      · intro hapart
        apply accepted_eq_iff.2
        exact fun text => recognises_start_minimalAutomaton hletters hdet hapart hstart _
      · intro hsymbols haccepted
        exact namesApart_of_sameTexts hletters hstart hsymbols fun text =>
          (accepted_eq_iff.1 haccepted text).symm

/-- Two states that are merged, and a third that bears their merged name. -/
def namesakes : Automaton where
  states := [⟨"a", true, false⟩, ⟨"b", false, false⟩, ⟨"a_b", false, true⟩]
  alphabet := [.text "x", .text "y"]
  transitions := [⟨"a", "b", .text "x"⟩, ⟨"a", "a_b", .text "y"⟩, ⟨"b", "b", .text "x"⟩,
    ⟨"b", "a_b", .text "y"⟩]
  start := "a"
  accepting := ["a_b"]

/-- Two blocks survive, but one state is left, which accepts what was not accepted. -/
theorem minimise_namesakes :
    namesakes.Valid ∧ namesakes.isDeterministic ∧
      namesakes.letters .literal = .ok [.text "x", .text "y"] ∧
      (namesakes.survivors [.text "x", .text "y"]).length = 2 ∧
      ∃ m, namesakes.minimise = .ok m ∧ m.states.length = 1 ∧
        (namesakes.runDfa "" .never).accepted = false ∧ (m.runDfa "" .never).accepted = true := by
  refine ⟨by decide +kernel, by decide +kernel, rfl, by decide +kernel, _, rfl, ?_, ?_, ?_⟩ <;>
    decide +kernel

/-- Two states that are merged, and a third whose name only looks like theirs. -/
def lookalikes : Automaton :=
  { namesakes with
    states := [⟨"a", true, false⟩, ⟨"b", false, false⟩, ⟨"b_a", false, true⟩]
    transitions := [⟨"a", "b", .text "x"⟩, ⟨"a", "b_a", .text "y"⟩, ⟨"b", "b", .text "x"⟩,
      ⟨"b", "b_a", .text "y"⟩]
    accepting := ["b_a"] }

theorem minimise_keeps_blocks_lookalikes :
    lookalikes.Valid ∧ lookalikes.isDeterministic ∧
      (∀ v ∈ lookalikes.alphabet, ∃ symbol, v = .atom symbol) ∧
      ∃ m, lookalikes.minimise = .ok m ∧ m.states.length = 2 ∧
        ∀ text, (m.runDfa text .never).accepted = (lookalikes.runDfa text .never).accepted := by
  have hvalid : lookalikes.Valid := by decide +kernel
  have hdet : lookalikes.isDeterministic := by decide +kernel
  have hatoms : ∀ v ∈ lookalikes.alphabet, ∃ symbol, v = .atom symbol :=
    List.forall_mem_cons.2 ⟨⟨.text "x", rfl⟩, List.forall_mem_singleton.2 ⟨.text "y", rfl⟩⟩
  have hletters : lookalikes.letters .literal = .ok [.text "x", .text "y"] := by rfl
  have hlength : (lookalikes.survivors [.text "x", .text "y"]).length = 2 := by decide +kernel
  have hapart : lookalikes.NamesApart [.text "x", .text "y"] := by decide +kernel
  obtain ⟨letters, m, hl, hm, hstates, haccepted, _⟩ := minimise_keeps_blocks hdet hatoms
  rw [hletters, Except.ok.injEq] at hl
  subst hl
  have hsome : lookalikes.survivors [.text "x", .text "y"] ≠ [] :=
    List.ne_nil_of_length_pos (by rw [hlength]; decide)
  exact ⟨hvalid, hdet, hatoms, m, hm, ((hstates hsome).2 hapart).trans hlength, haccepted hapart⟩

end FormalMachines.Finite.Automaton
