import FormalMachines.Proofs.Finite.Refinement

/-!
# FormalMachines.Proofs.Finite.Coarsest

Hopcroft's refinement ends with the coarsest stable partition.

The loop keeps every block covered by the sets that split nothing (`Refinement.Invariant`).
A splitter that was used splits nothing any more, and a set that splits nothing still does
so without it; that is why the half with fewer nodes is enough.  Each step takes one block
off the worklist, and each split adds one to it and one to the partition, so as many steps
as there are nodes empty the worklist.  Then every block splits nothing, and the blocks
are the classes of nodes that no word tells apart (`mem_block_iff`).
-/

namespace FormalMachines.Finite

variable {σ : Type} {successor : Node → σ → Node} {letters : List σ}

/-- Whether no word over some letters tells two nodes apart: it leads from both into a set
or from neither. -/
def Equivalent (successor : Node → σ → Node) (letters : List σ) (accepting : Block)
    (p q : Node) : Prop :=
  ∀ word : List σ, (∀ a ∈ word, a ∈ letters) →
    (word.foldl successor p ∈ accepting ↔ word.foldl successor q ∈ accepting)

namespace Equivalent

variable {accepting : Block} {p q : Node}

theorem symm (h : Equivalent successor letters accepting p q) :
    Equivalent successor letters accepting q p :=
  fun word hword => (h word hword).symm

/-- Nodes that no word tells apart have such successors. -/
theorem after (h : Equivalent successor letters accepting p q) {a : σ} (ha : a ∈ letters) :
    Equivalent successor letters accepting (successor p a) (successor q a) := by
  intro word hword
  exact h (a :: word) (by simpa [ha] using hword)

end Equivalent

namespace Refinement

variable {nodes accepting splitter : Block} {r r' : Refinement}

/-! ## One splitter -/

/-- Whether a refinement comes from another by splits under some letters. -/
def Splits (successor : Node → σ → Node) (letters : List σ) (splitter : Block) :
    Refinement → Refinement → Prop :=
  Relation.ReflTransGen fun r r' =>
    ∃ a ∈ letters, Split (fun q => decide (successor q a ∈ splitter)) r r'

namespace Splits

theorem refines (h : Splits successor letters splitter r r') :
    Refines r'.partition r.partition := by
  induction h with
  | refl => exact Refines.refl r.partition
  | tail _ hsplit ih =>
      obtain ⟨a, _, hsplit⟩ := hsplit
      exact hsplit.refines.trans ih

theorem balance (h : Splits successor letters splitter r r') :
    r'.worklist.length + r.partition.length = r.worklist.length + r'.partition.length := by
  induction h with
  | refl => rfl
  | tail _ hsplit ih =>
      obtain ⟨a, _, hsplit⟩ := hsplit
      have hbalance := hsplit.balance
      omega

theorem sound (h : Splits successor letters splitter r r') (hr : Sound nodes r) :
    Sound nodes r' := by
  induction h with
  | refl => exact hr
  | tail _ hsplit ih =>
      obtain ⟨a, _, hsplit⟩ := hsplit
      exact ih.split hsplit

theorem covered {family : (Node → Prop) → Prop} (h : Splits successor letters splitter r r')
    (hr : Sound nodes r) (hcovered : Covered family r) : Covered family r' := by
  induction h with
  | refl => exact hcovered
  | tail hsplits hsplit ih =>
      obtain ⟨a, _, hsplit⟩ := hsplit
      exact ih.split (sound hsplits hr) hsplit

theorem saturated {same : Node → Node → Prop} (h : Splits successor letters splitter r r')
    (hr : Sound nodes r) (hsaturated : Saturated same nodes r.partition)
    (henters : ∀ a ∈ letters, ∀ p ∈ nodes, ∀ q ∈ nodes, same p q →
      (successor p a ∈ splitter ↔ successor q a ∈ splitter)) :
    Saturated same nodes r'.partition := by
  induction h with
  | refl => exact hsaturated
  | tail hsplits hsplit ih =>
      obtain ⟨a, ha, hsplit⟩ := hsplit
      apply ih.split (sound hsplits hr) _ hsplit
      intro p hp q hq hsame
      rw [decide_eq_decide]
      exact henters a ha p hp q hq hsame

end Splits

/-- A division under a letter is a sequence of splits, after which the splitter splits
nothing under it. -/
theorem splits_divideBy (successor : Node → σ → Node) (splitter : Block) (r : Refinement) {a : σ} (ha : a ∈ letters) :
    Splits successor letters splitter r (r.divideBy successor splitter a) ∧
      Uniform (r.divideBy successor splitter a).partition fun q => successor q a ∈ splitter := by
  constructor
  · have hsplits := splits_divideBlocks (fun q => successor q a ∈ splitter) [] r.partition
      r.worklist
    exact hsplits.lift id fun _ _ hsplit => ⟨a, ha, hsplit⟩
  · have huniform := uniform_divideBlocks (fun q => successor q a ∈ splitter) r.partition
      r.worklist
    intro block hblock p hp q hq
    simpa using huniform block hblock p hp q hq

/-- So are the divisions under several letters in turn. -/
theorem splits_foldl_divideBy (successor : Node → σ → Node) (splitter : Block) (todo : List σ)
    (htodo : ∀ a ∈ todo, a ∈ letters) (r : Refinement) :
    Splits successor letters splitter r (todo.foldl (divideBy successor splitter) r) ∧
      Stable successor todo (todo.foldl (divideBy successor splitter) r).partition
        (· ∈ splitter) := by
  induction todo generalizing r with
  | nil => exact ⟨.refl, fun _ h => absurd h List.not_mem_nil⟩
  | cons a todo ih =>
      obtain ⟨hfirst, huniform⟩ := splits_divideBy successor splitter r
        (htodo a List.mem_cons_self)
      obtain ⟨hrest, hstable⟩ := ih (fun b hb => htodo b (List.mem_cons_of_mem a hb))
        (r.divideBy successor splitter a)
      refine ⟨hfirst.trans hrest, fun b hb => ?_⟩
      obtain hb | hb := List.mem_cons.1 hb
      · exact hb ▸ huniform.mono (Splits.refines hrest)
      · exact hstable b hb

/-! ## The loop -/

/-- What holds between two steps: each block is covered by sets that split nothing, the
blocks refine the split by acceptance, and equivalent nodes are together. -/
structure Invariant (successor : Node → σ → Node) (letters : List σ) (accepting nodes : Block)
    (r : Refinement) : Prop where
  sound : Sound nodes r
  covered : Covered (Stable successor letters r.partition) r
  verdict : Uniform r.partition (· ∈ accepting)
  saturated : Saturated (Equivalent successor letters accepting) nodes r.partition

theorem Covered.mono {family larger : (Node → Prop) → Prop} (h : Covered family r)
    (hsub : ∀ X, family X → larger X) : Covered larger r := by
  intro block hblock
  obtain hmem | ⟨X, hX, hrest⟩ := h block hblock
  · exact .inl hmem
  · exact .inr ⟨X, hsub X hX, hrest⟩

/-- What is left when a splitter is taken off the worklist is well formed. -/
theorem Sound.pop {blocks rest : List Block} (h : Sound nodes ⟨blocks, splitter :: rest⟩) :
    Sound nodes ⟨blocks, rest⟩ := by
  constructor
  · exact h.distinct
  · exact h.perm
  · exact h.nonempty
  · exact fun block hblock => h.waiting block (List.mem_cons_of_mem _ hblock)
  · exact (List.nodup_cons.1 h.nodup).2

/-- Sets that split nothing, without a splitter that is taken off the worklist, and the
splitter itself. -/
def Without (splitter : Block) (family : (Node → Prop) → Prop) (Y : Node → Prop) : Prop :=
  (∃ X, family X ∧ Y = fun q => X q ∧ q ∉ splitter) ∨ Y = (· ∈ splitter)

/-- When a splitter is taken off the worklist, the sets without it cover the blocks, and it
covers itself. -/
theorem Covered.pop {blocks rest : List Block} {family : (Node → Prop) → Prop}
    (hr : Sound nodes ⟨blocks, splitter :: rest⟩)
    (h : Covered family ⟨blocks, splitter :: rest⟩) :
    Covered (Without splitter family) ⟨blocks, rest⟩ := by
  have hsplitter : splitter ∈ blocks := hr.waiting splitter List.mem_cons_self
  intro block hblock
  by_cases heq : block = splitter
  · subst heq
    exact .inr ⟨(· ∈ block), .inr rfl, fun _ hq => hq, fun _ hq => .inl hq⟩
  · obtain hmem | ⟨X, hX, hincl, hrest⟩ := h block hblock
    · exact .inl (List.mem_of_ne_of_mem heq hmem)
    · refine .inr ⟨_, .inl ⟨X, hX, rfl⟩, fun q hq => ⟨hincl q hq, fun hq' => ?_⟩, ?_⟩
      · exact heq (hr.eq_of_mem hblock hsplitter hq hq')
      · intro q ⟨hq, hout⟩
        obtain hq | ⟨c, hc, hq⟩ := hrest q hq
        · exact .inl hq
        · have hne : c ≠ splitter := fun hc => hout (hc ▸ hq)
          exact .inr ⟨c, List.mem_of_ne_of_mem hne hc, hq⟩

/-- **A step** keeps the invariant, and with each split the worklist and the partition grow
alike. -/
theorem Invariant.step (h : Invariant successor letters accepting nodes r)
    (hclosed : ∀ q ∈ nodes, ∀ a ∈ letters, successor q a ∈ nodes)
    (hstep : r.step? successor letters = some r') :
    Invariant successor letters accepting nodes r' ∧
      r'.worklist.length + 1 + r.partition.length = r.worklist.length + r'.partition.length := by
  obtain ⟨blocks, worklist⟩ := r
  cases worklist with
  | nil => cases hstep
  | cons splitter rest =>
      rw [step?, Option.some.injEq] at hstep
      have hsplitter : splitter ∈ blocks := h.sound.waiting splitter List.mem_cons_self
      have hbase := h.sound.pop
      obtain ⟨hsplits, hstable⟩ := splits_foldl_divideBy successor splitter letters
        (fun _ ha => ha) ⟨blocks, rest⟩
      rw [hstep] at hsplits hstable
      constructor
      · constructor
        · exact hsplits.sound hbase
        · apply (hsplits.covered hbase (Covered.pop h.sound h.covered)).mono
          intro Y hY
          obtain ⟨X, hX, hY⟩ | hY := hY
          · exact hY ▸ (hX.mono hsplits.refines).diff hstable
          · exact hY ▸ hstable
        · exact h.verdict.mono hsplits.refines
        · apply hsplits.saturated hbase h.saturated
          intro a ha p hp q hq hsame
          have hafter := hsame.after ha
          constructor
          · exact fun hmem =>
              h.saturated splitter hsplitter _ hmem _ (hclosed q hq a ha) hafter
          · exact fun hmem =>
              h.saturated splitter hsplitter _ hmem _ (hclosed p hp a ha) hafter.symm
      · have hbalance := hsplits.balance
        simp only [List.length_cons] at hbalance ⊢
        omega

theorem mem_partition_ofGroups {others block : Block}
    (h : block ∈ (ofGroups [accepting, others]).partition) :
    (block = accepting ∨ block = others) ∧ block ≠ [] := by
  simpa [ofGroups] using h

/-- Two groups without a node in common are a well-formed start. -/
theorem sound_ofGroups {others : Block} (hnodup : (accepting ++ others).Nodup) :
    Sound (accepting ++ others) (ofGroups [accepting, others]) := by
  constructor
  · exact hnodup
  · by_cases ha : accepting = [] <;> by_cases ho : others = [] <;> simp [ofGroups, ha, ho]
  · exact fun block h => (mem_partition_ofGroups h).2
  · exact fun block h => List.mem_reverse.1 h
  · apply List.nodup_reverse.2
    by_cases heq : accepting = others
    · -- equal groups without a node in common are empty
      have hnil : others = [] := List.eq_nil_iff_forall_not_mem.2 fun q hq =>
        (List.nodup_append.1 hnodup).2.2 q (heq ▸ hq) q hq rfl
      simp [heq, hnil]
    · exact List.Nodup.filter _ (by simpa using heq)

/-- The invariant holds at the start. -/
theorem invariant_ofGroups (successor : Node → σ → Node) (letters : List σ) {others : Block}
    (hnodup : (accepting ++ others).Nodup) :
    Invariant successor letters accepting (accepting ++ others) (ofGroups [accepting, others]) := by
  have hdisjoint : ∀ {q}, q ∈ others → q ∉ accepting :=
    fun hq hq' => (List.nodup_append.1 hnodup).2.2 _ hq' _ hq rfl
  constructor
  · exact sound_ofGroups hnodup
  · intro block h
    exact .inl (List.mem_reverse.2 h)
  · intro block h p hp q hq
    obtain hblock | hblock := (mem_partition_ofGroups h).1
    · subst hblock
      exact iff_of_true hp hq
    · subst hblock
      exact iff_of_false (hdisjoint hp) (hdisjoint hq)
  · intro block h p hp q hq hsame
    have haccept : p ∈ accepting ↔ q ∈ accepting := hsame [] (by simp)
    obtain hblock | hblock := (mem_partition_ofGroups h).1
    · subst hblock
      exact haccept.1 hp
    · subst hblock
      obtain hq | hq := List.mem_append.1 hq
      · exact absurd (haccept.2 hq) (hdisjoint hp)
      · exact hq

/-- As many steps as there are nodes empty the worklist. -/
theorem invariant_refine (hclosed : ∀ q ∈ nodes, ∀ a ∈ letters, successor q a ∈ nodes)
    (bound : Nat) (h : Invariant successor letters accepting nodes r)
    (hbound : r.worklist.length + nodes.length ≤ bound + r.partition.length) :
    Invariant successor letters accepting nodes (r.refine successor letters bound) ∧
      (r.refine successor letters bound).worklist = [] := by
  induction bound generalizing r with
  | zero =>
      have hlen := h.sound.length_le
      have hnil : r.worklist = [] := List.eq_nil_of_length_eq_zero (by omega)
      exact ⟨h, hnil⟩
  | succ bound ih =>
      rw [refine]
      cases hstep : r.step? successor letters with
      | none =>
          refine ⟨h, ?_⟩
          rw [step?] at hstep
          cases hworklist : r.worklist with
          | nil => rfl
          | cons splitter rest => simp [hworklist] at hstep
      | some next =>
          obtain ⟨hnext, hbalance⟩ := h.step hclosed hstep
          exact ih hnext (by omega)

/-- With nothing left to wait every block splits nothing. -/
theorem Invariant.stable (h : Invariant successor letters accepting nodes r)
    (hnil : r.worklist = []) {block : Block} (hblock : block ∈ r.partition) :
    Stable successor letters r.partition (· ∈ block) := by
  obtain hmem | ⟨X, hX, hincl, hrest⟩ := h.covered block hblock
  · rw [hnil] at hmem
    exact absurd hmem List.not_mem_nil
  · have heq : X = (· ∈ block) := by
      funext q
      refine propext ⟨fun hq => (hrest q hq).resolve_right ?_, hincl q⟩
      intro ⟨c, hc, _⟩
      rw [hnil] at hc
      exact List.not_mem_nil hc
    exact heq ▸ hX

/-- Then no word tells two nodes of a block apart. -/
theorem Invariant.equivalent (h : Invariant successor letters accepting nodes r)
    (hclosed : ∀ q ∈ nodes, ∀ a ∈ letters, successor q a ∈ nodes) (hnil : r.worklist = [])
    {block : Block} (hblock : block ∈ r.partition) {p q : Node} (hp : p ∈ block)
    (hq : q ∈ block) : Equivalent successor letters accepting p q := by
  intro word hword
  induction word generalizing block p q with
  | nil => exact h.verdict block hblock p hp q hq
  | cons a word ih =>
      have ha : a ∈ letters := hword a List.mem_cons_self
      obtain ⟨c, hc, hpc⟩ := h.sound.exists_block (hclosed p (h.sound.mem_nodes hblock hp) a ha)
      have hqc := (h.stable hnil hc a ha block hblock p hp q hq).1 hpc
      exact ih hc hpc hqc fun b hb => hword b (List.mem_cons_of_mem a hb)

end Refinement

/-! ## The coarsest partition -/

section CoarsestPartition

variable {accepting others : Block} (hnodup : (accepting ++ others).Nodup)
  (hclosed : ∀ q ∈ accepting ++ others, ∀ a ∈ letters, successor q a ∈ accepting ++ others)

include hnodup hclosed

/-- The coarsest partition is what a refinement ends with. -/
theorem invariant_coarsestPartition :
    ∃ r : Refinement, r.partition = coarsestPartition successor letters accepting others ∧
      Refinement.Invariant successor letters accepting (accepting ++ others) r ∧
      r.worklist = [] := by
  have hbound : (Refinement.ofGroups [accepting, others]).worklist.length +
      (accepting ++ others).length ≤ accepting.length + others.length +
        (Refinement.ofGroups [accepting, others]).partition.length := by
    simp only [Refinement.ofGroups, List.length_reverse, List.length_append]
    omega
  have hend := Refinement.invariant_refine hclosed (accepting.length + others.length)
    (Refinement.invariant_ofGroups successor letters hnodup) hbound
  exact ⟨_, rfl, hend⟩

/-- The coarsest partition has a block for each node. -/
theorem exists_block_coarsestPartition {q : Node} (hq : q ∈ accepting ++ others) :
    ∃ block ∈ coarsestPartition successor letters accepting others, q ∈ block := by
  obtain ⟨r, hr, hinv, _⟩ := invariant_coarsestPartition hnodup hclosed
  rw [← hr]
  exact hinv.sound.exists_block hq

theorem mem_of_mem_block {block : Block}
    (hblock : block ∈ coarsestPartition successor letters accepting others) {q : Node}
    (hq : q ∈ block) : q ∈ accepting ++ others := by
  obtain ⟨r, hr, hinv, _⟩ := invariant_coarsestPartition hnodup hclosed
  rw [← hr] at hblock
  exact hinv.sound.mem_nodes hblock hq

/-- The blocks of the coarsest partition are distinct and none is empty. -/
theorem nodup_coarsestPartition :
    (coarsestPartition successor letters accepting others).Nodup ∧
      ∀ block ∈ coarsestPartition successor letters accepting others, block ≠ [] := by
  obtain ⟨r, hr, hinv, _⟩ := invariant_coarsestPartition hnodup hclosed
  rw [← hr]
  exact ⟨hinv.sound.nodup_partition, hinv.sound.nonempty⟩

/-- No node is in two blocks of the coarsest partition. -/
theorem eq_of_mem_coarsestPartition {block other : Block}
    (hblock : block ∈ coarsestPartition successor letters accepting others)
    (hother : other ∈ coarsestPartition successor letters accepting others) {q : Node}
    (hq : q ∈ block) (hq' : q ∈ other) : block = other := by
  obtain ⟨r, hr, hinv, _⟩ := invariant_coarsestPartition hnodup hclosed
  rw [← hr] at hblock hother
  exact hinv.sound.eq_of_mem hblock hother hq hq'

/-- **A block** of the coarsest partition holds exactly the nodes that no word tells apart
from one of its own. -/
theorem mem_block_iff {block : Block}
    (hblock : block ∈ coarsestPartition successor letters accepting others) {p q : Node}
    (hp : p ∈ block) (hq : q ∈ accepting ++ others) :
    q ∈ block ↔ Equivalent successor letters accepting p q := by
  obtain ⟨r, hr, hinv, hnil⟩ := invariant_coarsestPartition hnodup hclosed
  rw [← hr] at hblock
  constructor
  · exact hinv.equivalent hclosed hnil hblock hp
  · exact hinv.saturated block hblock p hp q hq

end CoarsestPartition

end FormalMachines.Finite
