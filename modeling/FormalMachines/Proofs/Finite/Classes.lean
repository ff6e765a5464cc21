import FormalMachines.Proofs.Finite.Coarsest
import FormalMachines.Proofs.Finite.Successor
import FormalMachines.Proofs.Worklist

/-!
# FormalMachines.Proofs.Finite.Classes

The merged states of a deterministic automaton.

The nodes that can be reached, the sink among them, fall into blocks by the words they
recognise.  All blocks but the sink's survive (`Automaton.survivors`).  Each node is sent to
the name of its block, and those of the sink's block to the sink (`Automaton.merge`).  As
long as the blocks that survive have different names, two nodes are sent to the same name
exactly if they recognise the same words (`merge_eq_merge_iff`).  They have if no name of a
state holds the separator (`namesApart_of_plain`).
-/

namespace FormalMachines.Finite

/-! ## Names of blocks -/

/-- Lists of texts without a separator are told apart by the text they join to. -/
theorem join_inj {separator : CodePoint} {xs ys : List Text} (hx : xs ≠ []) (hy : ys ≠ [])
    (hxs : ∀ x ∈ xs, separator ∉ x) (hys : ∀ y ∈ ys, separator ∉ y)
    (h : Text.join [separator] xs = Text.join [separator] ys) : xs = ys := by
  rw [← List.splitOn_intercalate separator hxs hx, ← List.splitOn_intercalate separator hys hy]
  exact congrArg (List.splitOn separator) h

namespace Block

theorem isSink_iff {b : Block} : b.isSink ↔ none ∈ b := decide_eq_true_iff

/-- The states of a block by name. -/
theorem mem_names_iff {b : Block} {q : Text} :
    q ∈ (NameSet.ofList (b.filterMap id)).toList ↔ some q ∈ b := by
  rw [NameSet.mem_toList, NameSet.mem_ofList, List.mem_filterMap]
  simp

/-- A block of one state has the name of that state. -/
theorem name_eq {b : Block} {q : Text} (h : ∀ p, some p ∈ b ↔ p = q) : b.name = q := by
  have hset : NameSet.ofList (b.filterMap id) = NameSet.ofList [q] := by
    apply NameSet.ext
    intro p
    rw [← NameSet.mem_toList, mem_names_iff, h]
    simp
  rw [name, hset]
  exact List.intercalate_singleton

/-- Blocks of one name have a state in common, and all of them, if no name of a state holds
the separator. -/
theorem mem_of_name_eq {b c : Block} (hname : b.name = c.name) (hb : ∃ q, some q ∈ b)
    (hc : ∃ q, some q ∈ c) (hbs : ∀ q, some q ∈ b → .char '_' ∉ q)
    (hcs : ∀ q, some q ∈ c → .char '_' ∉ q) {q : Text} (hq : some q ∈ b) : some q ∈ c := by
  have hne : ∀ {d : Block}, (∃ q, some q ∈ d) → (NameSet.ofList (d.filterMap id)).toList ≠ [] := by
    intro d ⟨q, hq⟩
    exact List.ne_nil_of_mem (mem_names_iff.2 hq)
  have heq := join_inj (hne hb) (hne hc) (fun q hq => hbs q (mem_names_iff.1 hq))
    (fun q hq => hcs q (mem_names_iff.1 hq)) hname
  rw [← mem_names_iff, ← heq]
  exact mem_names_iff.2 hq

end Block

namespace Automaton

variable {a : Automaton} {letters : List Atom} {p q : Text} {x y : Node} {s : Atom}

/-! ## The nodes that can be reached -/

/-- The search for states has room for all that can be reached. -/
theorem bounds_reachable (a : Automaton) (letters : List Atom) :
    Worklist.Bounds (Worklist.Reached (fun q => letters.filterMap (a.next? q)) [a.start])
      (a.transitions.length + 1) := by
  have h := Worklist.bounds_mem (a.start :: a.transitions.map (·.target))
  rw [List.length_cons, List.length_map] at h
  apply h.mono
  intro q hq
  apply hq.induct
  · exact fun p hp => List.mem_cons.2 (.inl (List.mem_singleton.1 hp))
  · intro p r _ hr
    obtain ⟨s, _, hs⟩ := List.mem_filterMap.1 hr
    obtain ⟨t, ht, _, _, htarget⟩ := exists_move_of_next? hs
    exact List.mem_cons_of_mem _ (List.mem_map.2 ⟨t, ht, htarget⟩)

theorem start_mem_reachable (a : Automaton) (letters : List Atom) :
    a.start ∈ a.reachable letters :=
  (Worklist.mem_explore_iff (a.bounds_reachable letters)).2 (Worklist.reached_of_mem (by simp))

/-- A move has a letter. -/
theorem exists_letter_of_next? (hletters : a.letters .literal = .ok letters)
    (h : a.next? q s = some p) : ∃ letter ∈ letters, letter.Same s := by
  obtain ⟨t, ht, _, hsame, _⟩ := exists_move_of_next? h
  obtain ⟨letter, hletter, hsame'⟩ := exists_letter hletters ht rfl
  exact ⟨letter, hletter, hsame'.trans hsame⟩

/-- What can be reached is closed under moves. -/
theorem next?_mem_reachable (hletters : a.letters .literal = .ok letters)
    (hq : q ∈ a.reachable letters) (h : a.next? q s = some p) : p ∈ a.reachable letters := by
  obtain ⟨letter, hletter, hsame⟩ := exists_letter_of_next? hletters h
  apply Worklist.next_mem_explore (a.bounds_reachable letters) hq
  exact List.mem_filterMap.2 ⟨letter, hletter, (a.next?_congr q hsame).trans h⟩

/-- A word leads to each state that can be reached. -/
theorem exists_word_of_mem_reachable (hq : q ∈ a.reachable letters) :
    ∃ word, a.after (some a.start) word = some q := by
  apply ((Worklist.mem_explore_iff (a.bounds_reachable letters)).1 hq).induct
    (P := fun q => ∃ word, a.after (some a.start) word = some q)
  · intro p hp
    rw [List.mem_singleton.1 hp]
    exact ⟨[], rfl⟩
  · intro p r ⟨word, hword⟩ hr
    obtain ⟨s, _, hs⟩ := List.mem_filterMap.1 hr
    refine ⟨word ++ [s], ?_⟩
    rw [after_append, hword]
    exact hs

/-- States that can be reached are declared. -/
theorem reachable_subset_names (hvalid : a.Valid) (hq : q ∈ a.reachable letters) :
    q ∈ a.names := by
  obtain ⟨word, hword⟩ := exists_word_of_mem_reachable hq
  exact after_induct hvalid.2.1 (fun _ _ _ _ h => next?_mem_names hvalid h) hword

/-- The states that can be reached and the sink, the accepting states first. -/
def nodes (a : Automaton) (letters : List Atom) : List Node :=
  ((a.reachable letters).filter (· ∈ a.accepting)).map some ++
    (((a.reachable letters).filter (· ∉ a.accepting)).map some ++ [none])

theorem mem_nodes_iff : x ∈ a.nodes letters ↔ x = none ∨ ∃ q ∈ a.reachable letters, x = some q := by
  simp only [nodes, List.mem_append, List.mem_map, List.mem_filter, List.mem_singleton,
    decide_eq_true_eq]
  grind

theorem none_mem_nodes (a : Automaton) (letters : List Atom) : none ∈ a.nodes letters :=
  mem_nodes_iff.2 (.inl rfl)

theorem some_mem_nodes (hq : q ∈ a.reachable letters) : some q ∈ a.nodes letters :=
  mem_nodes_iff.2 (.inr ⟨q, hq, rfl⟩)

theorem start_mem_nodes (a : Automaton) (letters : List Atom) :
    some a.start ∈ a.nodes letters :=
  some_mem_nodes (a.start_mem_reachable letters)

theorem nodup_nodes (a : Automaton) (letters : List Atom) : (a.nodes letters).Nodup := by
  have hnodup : (a.reachable letters).Nodup :=
    Worklist.nodup_explore .firstFirst (a.bounds_reachable letters)
  have hinj : Function.Injective (some : Text → Node) := fun _ _ => Option.some.inj
  simp only [nodes, List.nodup_append, List.nodup_singleton, List.mem_map, List.mem_filter,
    List.mem_append, List.mem_singleton, decide_eq_true_eq]
  refine ⟨(hnodup.filter _).map hinj, ⟨(hnodup.filter _).map hinj, trivial, ?_⟩, ?_⟩ <;> grind

theorem successor_mem_nodes (hletters : a.letters .literal = .ok letters)
    (hx : x ∈ a.nodes letters) (s : Atom) : a.successor x s ∈ a.nodes letters := by
  rw [mem_nodes_iff] at hx ⊢
  obtain hx | ⟨q, hq, hx⟩ := hx
  · rw [hx]
    exact .inl rfl
  · cases hnext : a.successor x s with
    | none => exact .inl rfl
    | some p =>
        rw [hx] at hnext
        exact .inr ⟨p, next?_mem_reachable hletters hq hnext, rfl⟩

theorem after_mem_nodes (hletters : a.letters .literal = .ok letters)
    (hx : x ∈ a.nodes letters) (word : List Atom) : a.after x word ∈ a.nodes letters := by
  induction word generalizing x with
  | nil => exact hx
  | cons s word ih => exact ih (successor_mem_nodes hletters hx s)

/-! ## What words tell apart -/

/-- Whether two nodes recognise the same words. -/
def SameWords (a : Automaton) (x y : Node) : Prop :=
  ∀ word, a.Recognises x word ↔ a.Recognises y word

theorem SameWords.successor (h : a.SameWords x y) (s : Atom) :
    a.SameWords (a.successor x s) (a.successor y s) :=
  fun word => h (s :: word)

/-- A node accepts if it recognises the empty word. -/
theorem mem_accepting_iff (hx : x ∈ a.nodes letters) :
    x ∈ ((a.reachable letters).filter (· ∈ a.accepting)).map some ↔ a.Recognises x [] := by
  simp only [List.mem_map, List.mem_filter, decide_eq_true_eq, Recognises, after_nil]
  rw [mem_nodes_iff] at hx
  grind

/-- Nodes that no word over the letters tells apart recognise the same words: a symbol that
is no letter leads everywhere to the sink. -/
theorem equivalent_iff (hletters : a.letters .literal = .ok letters) (hx : x ∈ a.nodes letters)
    (hy : y ∈ a.nodes letters) :
    Equivalent a.successor letters (((a.reachable letters).filter (· ∈ a.accepting)).map some)
      x y ↔ a.SameWords x y := by
  constructor
  · intro h word
    induction word generalizing x y with
    | nil =>
        rw [← mem_accepting_iff hx, ← mem_accepting_iff hy]
        exact h [] (by simp)
    | cons s word ih =>
        rw [recognises_cons_iff, recognises_cons_iff]
        by_cases hs : ∃ letter ∈ letters, letter.Same s
        · obtain ⟨letter, hletter, hsame⟩ := hs
          have hafter := h.after hletter
          rw [a.successor_congr x hsame, a.successor_congr y hsame] at hafter
          exact ih (successor_mem_nodes hletters hx s) (successor_mem_nodes hletters hy s) hafter
        · have hnone : ∀ z, a.successor z s = none := by
            intro z
            rw [Option.eq_none_iff_forall_ne_some]
            intro q hq
            cases z with
            | none => cases hq
            | some p => exact hs (exists_letter_of_next? hletters hq)
          rw [hnone, hnone]
  · intro h word _
    have hend : ∀ {z}, z ∈ a.nodes letters →
        (a.after z word ∈ ((a.reachable letters).filter (· ∈ a.accepting)).map some ↔
          a.Recognises z word) :=
      fun hz => mem_accepting_iff (after_mem_nodes hletters hz word)
    exact (hend hx).trans ((h word).trans (hend hy).symm)

/-! ## Blocks -/

section Blocks

variable {b c : Block} (hletters : a.letters .literal = .ok letters)

include hletters

theorem exists_block (hx : x ∈ a.nodes letters) : ∃ b ∈ a.blocks letters, x ∈ b :=
  exists_block_coarsestPartition (a.nodup_nodes letters)
    (fun _ hz _ _ => successor_mem_nodes hletters hz _) hx

theorem mem_nodes_of_mem_block (hb : b ∈ a.blocks letters) (hx : x ∈ b) : x ∈ a.nodes letters :=
  mem_of_mem_block (a.nodup_nodes letters) (fun _ hz _ _ => successor_mem_nodes hletters hz _)
    hb hx

/-- No node is in two blocks. -/
theorem eq_of_mem_blocks (hb : b ∈ a.blocks letters) (hc : c ∈ a.blocks letters) (hx : x ∈ b)
    (hx' : x ∈ c) : b = c :=
  eq_of_mem_coarsestPartition (a.nodup_nodes letters)
    (fun _ hz _ _ => successor_mem_nodes hletters hz _) hb hc hx hx'

/-- **A block** holds exactly the nodes that recognise the words that one of its own does. -/
theorem mem_block_iff_sameWords (hb : b ∈ a.blocks letters) (hx : x ∈ b)
    (hy : y ∈ a.nodes letters) : y ∈ b ↔ a.SameWords x y := by
  rw [← equivalent_iff hletters (mem_nodes_of_mem_block hletters hb hx) hy]
  exact mem_block_iff (a.nodup_nodes letters) (fun _ hz _ _ => successor_mem_nodes hletters hz _)
    hb hx hy

theorem nodup_blocks : (a.blocks letters).Nodup :=
  (nodup_coarsestPartition (a.nodup_nodes letters)
    fun _ hz _ _ => successor_mem_nodes hletters hz _).1

theorem exists_mem_block (hb : b ∈ a.blocks letters) : ∃ x, x ∈ b :=
  List.exists_mem_of_ne_nil b <| (nodup_coarsestPartition (a.nodup_nodes letters)
    fun _ hz _ _ => successor_mem_nodes hletters hz _).2 b hb

end Blocks

/-! ## Surviving blocks -/

/-- The blocks that survive: all but the sink's. -/
def survivors (a : Automaton) (letters : List Atom) : List Block :=
  (a.blocks letters).filter (!·.isSink)

/-- Whether the blocks that survive have different names. -/
def NamesApart (a : Automaton) (letters : List Atom) : Prop :=
  ∀ b ∈ a.survivors letters, ∀ c ∈ a.survivors letters, b.name = c.name → b = c

instance (a : Automaton) (letters : List Atom) : Decidable (a.NamesApart letters) := by
  unfold NamesApart; infer_instance

theorem mem_survivors_iff {b : Block} :
    b ∈ a.survivors letters ↔ b ∈ a.blocks letters ∧ none ∉ b := by
  simp [survivors, Block.isSink]

section Survivors

variable {b c : Block} (hletters : a.letters .literal = .ok letters)

include hletters

theorem nodup_survivors : (a.survivors letters).Nodup := (nodup_blocks hletters).filter _

theorem mem_reachable_of_mem_survivors (hb : b ∈ a.survivors letters) (hq : some q ∈ b) :
    q ∈ a.reachable letters := by
  have hnode := mem_nodes_of_mem_block hletters (mem_survivors_iff.1 hb).1 hq
  obtain hnone | ⟨r, hr, heq⟩ := mem_nodes_iff.1 hnode
  · cases hnone
  · cases heq
    exact hr

/-- A block that survives holds a state. -/
theorem exists_state_of_mem_survivors (hb : b ∈ a.survivors letters) : ∃ q, some q ∈ b := by
  obtain ⟨hblock, hsink⟩ := mem_survivors_iff.1 hb
  obtain ⟨x, hx⟩ := exists_mem_block hletters hblock
  cases x with
  | none => exact absurd hx hsink
  | some q => exact ⟨q, hx⟩

/-- **Names are different** if no state name holds the separator that joins them. -/
theorem namesApart_of_plain (hnames : ∀ q ∈ a.reachable letters, .char '_' ∉ q) :
    a.NamesApart letters := by
  intro b hb c hc hname
  have hplain : ∀ {d : Block}, d ∈ a.survivors letters → ∀ q, some q ∈ d → .char '_' ∉ q :=
    fun hd q hq => hnames q (mem_reachable_of_mem_survivors hletters hd hq)
  obtain ⟨q, hq⟩ := exists_state_of_mem_survivors hletters hb
  have hqc := Block.mem_of_name_eq hname ⟨q, hq⟩ (exists_state_of_mem_survivors hletters hc)
    (hplain hb) (hplain hc) hq
  exact eq_of_mem_blocks hletters (mem_survivors_iff.1 hb).1 (mem_survivors_iff.1 hc).1 hq hqc

/-- Names are different if each block that survives has the name of its states. -/
theorem namesApart_of_name (hnames : ∀ c ∈ a.survivors letters, ∀ q, some q ∈ c → c.name = q) :
    a.NamesApart letters := by
  intro b hb c hc hname
  obtain ⟨q, hq⟩ := exists_state_of_mem_survivors hletters hb
  obtain ⟨r, hr⟩ := exists_state_of_mem_survivors hletters hc
  rw [hnames b hb q hq, hnames c hc r hr] at hname
  subst hname
  exact eq_of_mem_blocks hletters (mem_survivors_iff.1 hb).1 (mem_survivors_iff.1 hc).1 hq hr

end Survivors

/-! ## Merging -/

/-- The merged node of a node: the name of its block, or the sink. -/
def merge (a : Automaton) (letters : List Atom) (x : Node) : Node :=
  x.bind (mergedName? (a.blocks letters))

@[simp] theorem merge_none (a : Automaton) (letters : List Atom) :
    a.merge letters none = none := rfl

@[simp] theorem merge_some (a : Automaton) (letters : List Atom) (q : Text) :
    a.merge letters (some q) = mergedName? (a.blocks letters) q := rfl

section Merge

variable (hletters : a.letters .literal = .ok letters)

include hletters

/-- A node is sent to the name of its block, or to the sink with the sink's block. -/
theorem merge_eq {b : Block} (hb : b ∈ a.blocks letters) (hx : x ∈ b) :
    a.merge letters x = if b.isSink then none else some b.name := by
  cases x with
  | none =>
      rw [if_pos (Block.isSink_iff.2 hx), merge_none]
  | some q =>
      rw [merge_some, mergedName?]
      cases hfind : (a.blocks letters).find? (some q ∈ ·) with
      | none =>
          have hout := List.find?_eq_none.1 hfind b hb
          exact absurd (decide_eq_true hx) hout
      | some c =>
          have hqc : some q ∈ c := by simpa using List.find?_some hfind
          rw [eq_of_mem_blocks hletters hb (List.mem_of_find?_eq_some hfind) hx hqc]

/-- A state is sent to the sink if it recognises no word. -/
theorem merge_eq_none_iff (hx : x ∈ a.nodes letters) :
    a.merge letters x = none ↔ a.SameWords x none := by
  obtain ⟨b, hb, hxb⟩ := exists_block hletters hx
  rw [merge_eq hletters hb hxb,
    ← mem_block_iff_sameWords hletters hb hxb (a.none_mem_nodes letters)]
  rw [← Block.isSink_iff]
  simp

/-- **Nodes are merged** exactly if they recognise the same words, as long as the blocks that
survive have different names. -/
theorem merge_eq_merge_iff (hapart : a.NamesApart letters)
    (hx : x ∈ a.nodes letters) (hy : y ∈ a.nodes letters) :
    a.merge letters x = a.merge letters y ↔ a.SameWords x y := by
  obtain ⟨b, hb, hxb⟩ := exists_block hletters hx
  obtain ⟨c, hc, hyc⟩ := exists_block hletters hy
  rw [← mem_block_iff_sameWords hletters hb hxb hy]
  constructor
  · intro h
    rw [merge_eq hletters hb hxb, merge_eq hletters hc hyc] at h
    by_cases hbsink : b.isSink
    · by_cases hcsink : c.isSink
      · have heq := eq_of_mem_blocks hletters hb hc (Block.isSink_iff.1 hbsink)
          (Block.isSink_iff.1 hcsink)
        exact heq ▸ hyc
      · rw [if_pos hbsink, if_neg hcsink] at h
        cases h
    · by_cases hcsink : c.isSink
      · rw [if_neg hbsink, if_pos hcsink] at h
        cases h
      · rw [if_neg hbsink, if_neg hcsink, Option.some.injEq] at h
        have heq := hapart b (mem_survivors_iff.2 ⟨hb, mt Block.isSink_iff.2 hbsink⟩) c
          (mem_survivors_iff.2 ⟨hc, mt Block.isSink_iff.2 hcsink⟩) h
        exact heq ▸ hyc
  · intro hyb
    rw [merge_eq hletters hb hxb, merge_eq hletters hb hyb]

/-- Merged nodes have merged successors. -/
theorem merge_successor_congr (hapart : a.NamesApart letters)
    (hx : x ∈ a.nodes letters) (hy : y ∈ a.nodes letters)
    (h : a.merge letters x = a.merge letters y) (s : Atom) :
    a.merge letters (a.successor x s) = a.merge letters (a.successor y s) := by
  have hsame := ((merge_eq_merge_iff hletters hapart hx hy).1 h).successor s
  exact (merge_eq_merge_iff hletters hapart (successor_mem_nodes hletters hx s)
    (successor_mem_nodes hletters hy s)).2 hsame

end Merge

end Automaton

end FormalMachines.Finite
