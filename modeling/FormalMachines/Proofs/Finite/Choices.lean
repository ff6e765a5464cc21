import FormalMachines.Proofs.Distinct
import FormalMachines.Proofs.Finite.Successor

/-!
# FormalMachines.Proofs.Finite.Choices

The check for determinism and the list of choices.

Both go through the moves once.  The check stops at the first move that is labelled `ε` or
shares its slot with an earlier one (`scanSlots`); the list sorts the targets by slot
(`targetTable`) and keeps the slots that leave a choice.  Seen apart from these passes a choice
is a state and a symbol with two moves, or with `ε` as its symbol (`exists_mem_choices_iff`),
and it lists the targets of its moves (`targets_of_mem_choices`), so an automaton is
deterministic exactly if it has none (`isDeterministic_iff_choices_eq_nil`).
-/

namespace FormalMachines.Finite

/-- What tells which moves a choice is between. -/
def Choice.slot (c : Choice) : Text × Atom.Key := (c.state, c.symbol.key)

theorem Transition.fits_iff {t : Transition} {state : Text} {symbol : Atom} :
    t.fits state symbol ↔ t.slot = (state, symbol.key) := by
  simp [fits, slot]

/-! ## The passes -/

/-- Looks at moves in order, given the slots of those before them, until one is labelled `ε`
or has a slot that is taken. -/
def scanSlots : List (Text × Atom.Key) → List Transition → Bool
  | _, [] => true
  | taken, t :: rest =>
    if t.isEpsilon then false
    else if t.slot ∈ taken then false
    else scanSlots (t.slot :: taken) rest

/-- Puts the target of a move into the entry of its slot, or into a new one at the end. -/
def enterTarget : List Choice → Transition → List Choice
  | [], t => [⟨t.source, t.symbol, [t.target]⟩]
  | c :: rest, t =>
    if c.slot = t.slot then { c with targets := c.targets ++ [t.target] } :: rest
    else c :: enterTarget rest t

/-- The targets of moves, sorted by slot. -/
def targetTable (moves : List Transition) : List Choice := moves.foldl enterTarget []

theorem scanSlots_iff {taken : List (Text × Atom.Key)} {moves : List Transition} :
    scanSlots taken moves ↔ (∀ t ∈ moves, ¬ t.isEpsilon) ∧ (moves.map (·.slot)).Nodup ∧
      ∀ t ∈ moves, t.slot ∉ taken := by
  induction moves generalizing taken with
  | nil => simp [scanSlots]
  | cons t rest ih =>
      rw [scanSlots]
      by_cases hsilent : t.isEpsilon
      · simp [hsilent]
      by_cases htaken : t.slot ∈ taken
      · simp [htaken]
      simp only [hsilent, htaken, Bool.false_eq_true, if_false, ih, List.map_cons,
        List.nodup_cons, List.mem_cons, not_or, List.mem_map, not_exists, not_and]
      grind

/-- A move whose slot has no entry gets one at the end. -/
theorem enterTarget_of_notMem {table : List Choice} {t : Transition}
    (h : t.slot ∉ table.map (·.slot)) :
    enterTarget table t = table ++ [⟨t.source, t.symbol, [t.target]⟩] := by
  induction table with
  | nil => rfl
  | cons c rest ih =>
      simp only [List.map_cons, List.mem_cons, not_or] at h
      rw [enterTarget, if_neg (Ne.symm h.1), ih h.2, List.cons_append]

/-- A move whose slot has an entry adds its target there. -/
theorem enterTarget_of_mem {table : List Choice} {t : Transition}
    (hnodup : (table.map (·.slot)).Nodup) (h : t.slot ∈ table.map (·.slot)) :
    enterTarget table t = table.map fun c =>
      { c with targets := c.targets ++ if t.slot = c.slot then [t.target] else [] } := by
  induction table with
  | nil => exact absurd h List.not_mem_nil
  | cons c rest ih =>
      obtain ⟨hnew, hnodup⟩ := List.nodup_cons.1 hnodup
      rw [enterTarget, List.map_cons]
      by_cases hslot : c.slot = t.slot
      · -- the entries behind have other slots, so nothing is added to them
        have hrest : (rest.map fun d =>
            { d with targets := d.targets ++ if t.slot = d.slot then [t.target] else [] }) =
            rest := by
          refine (List.map_congr_left fun d hd => ?_).trans (List.map_id rest)
          have hne : t.slot ≠ d.slot := fun heq =>
            hnew (List.mem_map.2 ⟨d, hd, (hslot.trans heq).symm⟩)
          simp [hne]
        rw [if_pos hslot, if_pos hslot.symm, hrest]
      · have hmem : t.slot ∈ rest.map (·.slot) :=
          (List.mem_cons.1 h).resolve_left (Ne.symm hslot)
        rw [if_neg hslot, if_neg (Ne.symm hslot), List.append_nil, ih hnodup hmem]

/-- The targets of the moves that have the slot of a move. -/
def targetsAmong (moves : List Transition) (t : Transition) : List Text :=
  (moves.filter fun u => u.slot = t.slot).map (·.target)

theorem targetsAmong_append_singleton (moves : List Transition) (u t : Transition) :
    targetsAmong (moves ++ [u]) t =
      targetsAmong moves t ++ if u.slot = t.slot then [u.target] else [] := by
  rw [targetsAmong, targetsAmong, List.filter_append, List.map_append]
  by_cases h : u.slot = t.slot <;> simp [h]

/-- Entries for the first moves of the slots are for the slots in order of first occurrence. -/
theorem map_slot_firstMoves (moves : List Transition) (targets : Transition → List Text) :
    (((moves.eraseDupsBy fun t u => t.slot = u.slot).map fun t =>
      (⟨t.source, t.symbol, targets t⟩ : Choice)).map (·.slot)) =
      (moves.map (·.slot)).eraseDups := by
  rw [List.map_map, ← Distinct.map_eraseDupsBy]
  rfl

/-- **The table** has an entry for the first move of every slot. -/
theorem targetTable_eq (moves : List Transition) :
    targetTable moves = (moves.eraseDupsBy fun t u => t.slot = u.slot).map fun t =>
      ⟨t.source, t.symbol, targetsAmong moves t⟩ := by
  induction moves using List.reverseRecOn with
  | nil => rfl
  | append_singleton moves u ih =>
      have hslots : (targetTable moves).map (·.slot) = (moves.map (·.slot)).eraseDups := by
        rw [ih, map_slot_firstMoves]
      have hmem : u.slot ∈ (targetTable moves).map (·.slot) ↔ u.slot ∈ moves.map (·.slot) := by
        rw [hslots, List.mem_eraseDups]
      have hlast : targetTable (moves ++ [u]) = enterTarget (targetTable moves) u :=
        List.foldl_append
      rw [hlast, Distinct.eraseDupsBy_append_singleton]
      by_cases hu : u.slot ∈ moves.map (·.slot)
      · rw [if_pos hu, enterTarget_of_mem (hslots ▸ Distinct.nodup_eraseDups _) (hmem.2 hu), ih,
          List.map_map]
        apply List.map_congr_left
        intro t _
        rw [targetsAmong_append_singleton]
        rfl
      · have hold : ∀ t ∈ moves, t.slot ≠ u.slot := fun t ht heq =>
          hu (heq ▸ List.mem_map_of_mem ht)
        have hnone : targetsAmong moves u = [] := by
          simpa [targetsAmong, List.filter_eq_nil_iff] using hold
        rw [if_neg hu, enterTarget_of_notMem (mt hmem.1 hu), ih, List.map_append,
          List.map_singleton, targetsAmong_append_singleton, hnone, if_pos rfl, List.nil_append]
        congr 1
        apply List.map_congr_left
        intro t ht
        have hne : u.slot ≠ t.slot := (hold t (Distinct.mem_of_mem_eraseDupsBy _ ht)).symm
        rw [targetsAmong_append_singleton, if_neg hne, List.append_nil]

namespace Automaton

variable {a : Automaton} {state : Text} {symbol : Atom} {c : Choice} {t : Transition}

theorem isDeterministic_eq_scanSlots (a : Automaton) :
    a.isDeterministic = scanSlots [] a.transitions := by
  rw [Bool.eq_iff_iff, isDeterministic_iff, scanSlots_iff]
  simp [slots]

theorem choices_eq_targetTable (a : Automaton) :
    a.choices = (targetTable a.transitions).filter fun c =>
      1 < c.targets.length || c.symbol = .text epsilon := by
  rw [targetTable_eq]
  rfl

/-! ## What is listed -/

/-- The moves from a state under a symbol are those of a slot. -/
theorem moves_eq_filter_slot (a : Automaton) (t : Transition) :
    a.moves t.source t.symbol = a.transitions.filter fun u => u.slot = t.slot := by
  apply List.filter_congr
  intro u _
  rw [Bool.eq_iff_iff, Transition.fits_iff, decide_eq_true_iff]
  rfl

theorem targetsBeside_eq (a : Automaton) (t : Transition) :
    a.targetsBeside t = (a.moves t.source t.symbol).map (·.target) := by
  rw [moves_eq_filter_slot]
  rfl

theorem head?_moves (ht : t ∈ a.slotHeads) : (a.moves t.source t.symbol).head? = some t := by
  rw [moves_eq_filter_slot]
  exact Distinct.head?_filter_of_mem_eraseDupsBy Transition.slot ht

/-- A choice is the slot of a move with a second one beside it, or with `ε`. -/
theorem mem_choices_iff : c ∈ a.choices ↔
    ∃ t ∈ a.slotHeads, c = ⟨t.source, t.symbol, (a.moves t.source t.symbol).map (·.target)⟩ ∧
      (2 ≤ (a.moves t.source t.symbol).length ∨ t.symbol = .text epsilon) := by
  simp only [choices, targetsBeside_eq, List.mem_filter, List.mem_map, Bool.or_eq_true,
    decide_eq_true_eq, Nat.lt_iff_add_one_le]
  constructor
  · rintro ⟨⟨t, ht, rfl⟩, hchoice⟩
    exact ⟨t, ht, rfl, by simpa using hchoice⟩
  · rintro ⟨t, ht, rfl, hchoice⟩
    exact ⟨⟨t, ht, rfl⟩, by simpa using hchoice⟩

/-- A choice lists the targets of its moves in order and has the symbol of the first. -/
theorem targets_of_mem_choices (h : c ∈ a.choices) :
    c.targets = (a.moves c.state c.symbol).map (·.target) ∧
      (a.moves c.state c.symbol).head?.map (·.symbol) = some c.symbol := by
  obtain ⟨t, ht, rfl, -⟩ := mem_choices_iff.1 h
  exact ⟨rfl, congrArg (Option.map _) (head?_moves ht)⟩

/-- **There is a choice** where a state has two moves under a symbol or a move under `ε`. -/
theorem exists_mem_choices_iff :
    (∃ c ∈ a.choices, c.state = state ∧ c.symbol.Same symbol) ↔
      2 ≤ (a.moves state symbol).length ∨ symbol = .text epsilon ∧ a.moves state symbol ≠ [] := by
  have hepsilon : ∀ {s : Atom}, s.Same symbol → (s = .text epsilon ↔ symbol = .text epsilon) := by
    intro s hkey
    rw [← Atom.key_eq_text_iff, hkey, Atom.key_eq_text_iff]
  constructor
  · rintro ⟨c, hc, rfl, hsymbol⟩
    obtain ⟨t, ht, rfl, hchoice⟩ := mem_choices_iff.1 hc
    have hne := List.ne_nil_of_mem (List.mem_of_mem_head? (head?_moves ht))
    rw [a.moves_congr t.source hsymbol] at hchoice hne
    exact hchoice.imp_right fun h => ⟨(hepsilon hsymbol).1 h, hne⟩
  · intro h
    have hne : a.moves state symbol ≠ [] := by
      rcases h with h | h
      · exact List.ne_nil_of_length_pos (by omega)
      · exact h.2
    obtain ⟨u, hu⟩ := List.exists_mem_of_ne_nil _ hne
    obtain ⟨hmem, hsource, hkey⟩ := mem_moves.1 hu
    -- the choice is found at the first move of that slot
    obtain ⟨t, ht, hslot⟩ := Distinct.exists_mem_eraseDupsBy Transition.slot hmem
    have hsymbol : t.symbol.Same symbol := (congrArg Prod.snd hslot).trans hkey
    obtain rfl : t.source = state := (congrArg Prod.fst hslot).trans hsource
    refine ⟨_, mem_choices_iff.2 ⟨t, ht, rfl, ?_⟩, rfl, hsymbol⟩
    rw [a.moves_congr t.source hsymbol]
    exact h.imp_right fun h => (hepsilon hsymbol).2 h.1

/-- Choices stand in the order in which their slots first occur, each once. -/
theorem pairwise_choices (a : Automaton) :
    a.choices.Pairwise fun c d => a.slots.idxOf c.slot < a.slots.idxOf d.slot := by
  have hslots : (targetTable a.transitions).map (·.slot) = a.slots.eraseDups := by
    rw [targetTable_eq, map_slot_firstMoves, slots]
  have horder := Distinct.pairwise_idxOf_eraseDups a.slots
  rw [← hslots, List.pairwise_map] at horder
  rw [choices_eq_targetTable]
  exact horder.sublist List.filter_sublist

/-- No slot holds two moves if no state has two under a symbol. -/
theorem nodup_slots_of_length_moves (h : ∀ q s, (a.moves q s).length ≤ 1) : a.slots.Nodup := by
  rw [List.nodup_iff_count_le_one]
  intro slot
  by_cases hslot : slot ∈ a.slots
  · obtain ⟨t, -, rfl⟩ := List.mem_map.1 hslot
    have hle := h t.source t.symbol
    rw [moves_eq_filter_slot, ← List.countP_eq_length_filter] at hle
    rw [slots, List.count_eq_countP, List.countP_map]
    simpa only [Function.comp_def, beq_eq_decide] using hle
  · rw [List.count_eq_zero_of_not_mem hslot]
    exact Nat.zero_le 1

/-- **An automaton is deterministic** exactly if it has no choices. -/
theorem isDeterministic_iff_choices_eq_nil : a.isDeterministic ↔ a.choices = [] := by
  rw [isDeterministic_iff, List.eq_nil_iff_forall_not_mem]
  constructor
  · intro ⟨hsilent, hslots⟩ c hc
    rcases exists_mem_choices_iff.1 ⟨c, hc, rfl, rfl⟩ with hlong | ⟨hepsilon, hne⟩
    · exact absurd (length_moves_le_one hslots c.state c.symbol) (by omega)
    · obtain ⟨t, ht⟩ := List.exists_mem_of_ne_nil _ hne
      obtain ⟨hmem, -, hsame⟩ := mem_moves.1 ht
      rw [hepsilon] at hsame
      exact hsilent ⟨t, hmem, Transition.isEpsilon_iff.2 (Atom.key_eq_text_iff.1 hsame)⟩
  · intro hnone
    have hno : ∀ q s, ¬ (2 ≤ (a.moves q s).length ∨ s = .text epsilon ∧ a.moves q s ≠ []) :=
      fun q s h => by
        obtain ⟨c, hc, -⟩ := exists_mem_choices_iff.2 h
        exact hnone c hc
    refine ⟨fun ⟨t, ht, hsilent⟩ => ?_, nodup_slots_of_length_moves fun q s => ?_⟩
    · have hmove : t ∈ a.moves t.source (.text epsilon) :=
        mem_moves.2 ⟨ht, rfl, congrArg Atom.key (Transition.isEpsilon_iff.1 hsilent)⟩
      exact hno t.source _ (.inr ⟨rfl, List.ne_nil_of_mem hmove⟩)
    · have hshort := hno q s
      omega

/-- **The check for determinism and the list of choices** agree, in every automaton.  The check
is the pass that stops at the first `ε` or repeated slot, and the list the table of targets by
slot, without the slots that leave no choice.  The automaton passes the check exactly if
nothing is listed.  Listed are, in the order of their first moves and each once, the states
and symbols with at least two moves, and those with moves under `ε`; each stands with the
targets of all its moves in order, and under the symbol as its first move gives it. -/
theorem isDeterministic_agrees_choices (a : Automaton) :
    a.isDeterministic = scanSlots [] a.transitions ∧
    a.choices = (targetTable a.transitions).filter
      (fun c => 1 < c.targets.length || c.symbol = .text epsilon) ∧
    (a.isDeterministic ↔ a.choices = []) ∧
    (∀ state symbol, (∃ c ∈ a.choices, c.state = state ∧ c.symbol.Same symbol) ↔
      2 ≤ (a.moves state symbol).length ∨ symbol = .text epsilon ∧ a.moves state symbol ≠ []) ∧
    a.choices.Pairwise (fun c d => a.slots.idxOf c.slot < a.slots.idxOf d.slot) ∧
    ∀ c ∈ a.choices, c.targets = (a.moves c.state c.symbol).map (·.target) ∧
      (a.moves c.state c.symbol).head?.map (·.symbol) = some c.symbol :=
  ⟨a.isDeterministic_eq_scanSlots, a.choices_eq_targetTable, isDeterministic_iff_choices_eq_nil,
    fun _ _ => exists_mem_choices_iff, a.pairwise_choices, fun _ => targets_of_mem_choices⟩

end Automaton

end FormalMachines.Finite
