import FormalMachines.Finite.Partition
import Mathlib.Algebra.BigOperators.Group.List.Basic
import Mathlib.Data.List.Nodup
import Mathlib.Data.List.Pairwise
import Mathlib.Logic.Relation

/-!
# FormalMachines.Proofs.Finite.Refinement

What the splits of Hopcroft's refinement keep.

All that a refinement does to a partition is to split one block after the other
(`Refinement.Split`), so what a single split keeps is kept throughout:

* the blocks hold each node once and are never empty, and the worklist holds some of them,
  each once (`Refinement.Sound`);
* each block that does not wait is what is left of a set of some family when nodes that
  wait are taken away (`Refinement.Covered`);
* related nodes stay together (`Refinement.Saturated`), if the property that a block is
  divided by does not tell them apart.
-/

namespace FormalMachines.Finite

/-! ## Partitions and sets of nodes -/

/-- Whether the blocks of a partition lie within those of another. -/
def Refines (blocks coarser : List Block) : Prop :=
  ∀ block ∈ blocks, ∃ c ∈ coarser, block ⊆ c

/-- Whether a set of nodes holds all or none of each block. -/
def Uniform (blocks : List Block) (X : Node → Prop) : Prop :=
  ∀ block ∈ blocks, ∀ p ∈ block, ∀ q ∈ block, X p ↔ X q

theorem Refines.refl (blocks : List Block) : Refines blocks blocks :=
  fun block h => ⟨block, h, List.Subset.refl block⟩

theorem Refines.trans {fine blocks coarse : List Block} (h : Refines fine blocks)
    (h' : Refines blocks coarse) : Refines fine coarse := by
  intro block hblock
  obtain ⟨c, hc, hsub⟩ := h block hblock
  obtain ⟨d, hd, hsub'⟩ := h' c hc
  exact ⟨d, hd, List.Subset.trans hsub hsub'⟩

theorem Uniform.mono {blocks coarser : List Block} {X : Node → Prop} (h : Uniform coarser X)
    (hrefines : Refines blocks coarser) : Uniform blocks X := by
  intro block hblock p hp q hq
  obtain ⟨c, hc, hsub⟩ := hrefines block hblock
  exact h c hc p (hsub hp) q (hsub hq)

section Stable

variable {σ : Type} (successor : Node → σ → Node) (letters : List σ)

/-- Whether a set of nodes splits no block under any letter. -/
def Stable (blocks : List Block) (X : Node → Prop) : Prop :=
  ∀ a ∈ letters, Uniform blocks fun q => X (successor q a)

variable {successor letters}

theorem Stable.mono {blocks coarser : List Block} {X : Node → Prop}
    (h : Stable successor letters coarser X) (hrefines : Refines blocks coarser) :
    Stable successor letters blocks X :=
  fun a ha => (h a ha).mono hrefines

theorem Stable.diff {blocks : List Block} {X Y : Node → Prop}
    (hX : Stable successor letters blocks X) (hY : Stable successor letters blocks Y) :
    Stable successor letters blocks fun q => X q ∧ ¬ Y q :=
  fun a ha block hblock p hp q hq =>
    and_congr (hX a ha block hblock p hp q hq) (not_congr (hY a ha block hblock p hp q hq))

end Stable

namespace Refinement

/-! ## One split -/

/-- Whether a refinement comes from another by the split of one block into the nodes with
a property and those without it, of which there are both. -/
inductive Split (hit : Node → Bool) : Refinement → Refinement → Prop where
  | intro (front : List Block) (block : Block) (back worklist : List Block)
      (inside : block.filter hit ≠ []) (outside : block.filter (fun q => !hit q) ≠ []) :
      Split hit ⟨front ++ block :: back, worklist⟩
        ⟨front ++ block.filter hit :: block.filter (fun q => !hit q) :: back,
          reschedule block (block.filter hit) (block.filter fun q => !hit q) worklist⟩

variable {hit : Node → Bool} {r r' : Refinement}

/-- A division of all blocks is a sequence of splits. -/
theorem splits_divideBlocks (hit : Node → Bool) (front blocks worklist : List Block) :
    Relation.ReflTransGen (Split hit) ⟨front ++ blocks, worklist⟩
      ⟨front ++ (divideBlocks hit blocks worklist).partition,
        (divideBlocks hit blocks worklist).worklist⟩ := by
  induction blocks generalizing front worklist with
  | nil => exact .refl
  | cons block blocks ih =>
      rw [divideBlocks]
      by_cases h : block.filter hit = [] ∨ (block.filter fun q => !hit q) = []
      · simp only [h, if_true]
        have hrest := ih (front ++ [block]) worklist
        simpa using hrest
      · simp only [h, if_false]
        rw [not_or] at h
        have hrest := ih (front ++ [block.filter hit, block.filter fun q => !hit q])
          (reschedule block (block.filter hit) (block.filter fun q => !hit q) worklist)
        exact .head (.intro front block blocks worklist h.1 h.2) (by simpa using hrest)

/-- After a division each block has the property as a whole or not at all. -/
theorem uniform_divideBlocks (hit : Node → Bool) (blocks worklist : List Block) :
    Uniform (divideBlocks hit blocks worklist).partition fun q => hit q := by
  induction blocks generalizing worklist with
  | nil => exact fun _ h => absurd h List.not_mem_nil
  | cons block blocks ih =>
      rw [divideBlocks]
      by_cases h : block.filter hit = [] ∨ (block.filter fun q => !hit q) = []
      · simp only [h, if_true]
        intro c hc p hp q hq
        obtain hc | hc := List.mem_cons.1 hc
        · subst hc
          simp only [List.filter_eq_nil_iff, Bool.not_eq_true', Bool.not_eq_false] at h
          obtain h | h := h
          · simp [h p hp, h q hq]
          · simp [h p hp, h q hq]
        · exact ih _ c hc p hp q hq
      · simp only [h, if_false]
        intro c hc p hp q hq
        obtain hc | hc := List.mem_cons.1 hc
        · subst hc
          simp [(List.mem_filter.1 hp).2, (List.mem_filter.1 hq).2]
        · obtain hc | hc := List.mem_cons.1 hc
          · subst hc
            have hnp := (List.mem_filter.1 hp).2
            have hnq := (List.mem_filter.1 hq).2
            simp_all
          · exact ih _ c hc p hp q hq

theorem Split.refines (h : Split hit r r') : Refines r'.partition r.partition := by
  cases h with
  | intro front block back worklist _ _ =>
      intro c hc
      simp only [List.mem_append, List.mem_cons] at hc
      obtain hc | hc | hc | hc := hc
      · exact ⟨c, by simp [hc], List.Subset.refl c⟩
      · exact ⟨block, by simp, hc ▸ List.filter_sublist.subset⟩
      · exact ⟨block, by simp, hc ▸ List.filter_sublist.subset⟩
      · exact ⟨c, by simp [hc], List.Subset.refl c⟩

/-- A split adds a block to the worklist and one to the partition. -/
theorem Split.balance (h : Split hit r r') :
    r'.worklist.length + r.partition.length = r.worklist.length + r'.partition.length := by
  cases h with
  | intro front block back worklist _ _ =>
      by_cases hmem : block ∈ worklist
      · have hpos := List.length_pos_of_mem hmem
        simp only [reschedule, hmem, if_true, List.length_cons, List.length_append,
          List.length_erase_of_mem hmem]
        omega
      · simp only [reschedule, hmem, if_false, List.length_cons, List.length_append]
        omega

/-! ## What a split keeps -/

/-- The blocks hold each node once and are not empty, and the worklist holds some of them,
each once. -/
structure Sound (nodes : List Node) (r : Refinement) : Prop where
  distinct : nodes.Nodup
  perm : r.partition.flatten.Perm nodes
  nonempty : ∀ block ∈ r.partition, block ≠ []
  waiting : ∀ block ∈ r.worklist, block ∈ r.partition
  nodup : r.worklist.Nodup

variable {nodes : List Node}

namespace Sound

theorem exists_block (h : Sound nodes r) {q : Node} (hq : q ∈ nodes) :
    ∃ block ∈ r.partition, q ∈ block :=
  List.mem_flatten.1 (h.perm.mem_iff.2 hq)

theorem mem_nodes (h : Sound nodes r) {block : Block} (hblock : block ∈ r.partition) {q : Node}
    (hq : q ∈ block) : q ∈ nodes :=
  h.perm.mem_iff.1 (List.mem_flatten.2 ⟨block, hblock, hq⟩)

/-- No node is in two blocks. -/
theorem eq_of_mem (h : Sound nodes r) {block other : Block} (hblock : block ∈ r.partition)
    (hother : other ∈ r.partition) {q : Node} (hq : q ∈ block) (hq' : q ∈ other) :
    block = other := by
  by_contra hne
  have hsymm : Std.Symm (List.Disjoint (α := Node)) := ⟨fun _ _ => List.disjoint_symm⟩
  have hdisjoint := (List.nodup_flatten.1 (h.perm.nodup_iff.2 h.distinct)).2
  exact hdisjoint.forall hblock hother hne hq hq'

/-- There are no more blocks than nodes. -/
theorem length_le (h : Sound nodes r) : r.partition.length ≤ nodes.length := by
  rw [← h.perm.length_eq, List.length_flatten, ← List.length_map List.length]
  apply List.length_le_sum_of_one_le
  intro n hn
  obtain ⟨block, hblock, hlen⟩ := List.mem_map.1 hn
  rw [← hlen]
  exact List.length_pos_of_ne_nil (h.nonempty block hblock)

theorem nodup_partition (h : Sound nodes r) : r.partition.Nodup := by
  apply (List.nodup_flatten.1 (h.perm.nodup_iff.2 h.distinct)).2.imp_of_mem
  intro block other hblock _ hdisjoint heq
  obtain ⟨q, hq⟩ := List.exists_mem_of_ne_nil block (h.nonempty block hblock)
  exact hdisjoint hq (heq ▸ hq)

/-- A part of a block is no block. -/
theorem not_mem_of_subset (h : Sound nodes r) {block part : Block} (hblock : block ∈ r.partition)
    (hsub : part ⊆ block) (hne : part ≠ []) {q : Node} (hq : q ∈ block) (hq' : q ∉ part) :
    part ∉ r.partition := by
  intro hpart
  obtain ⟨p, hp⟩ := List.exists_mem_of_ne_nil part hne
  have heq := h.eq_of_mem hpart hblock hp (hsub hp)
  exact hq' (heq ▸ hq)

end Sound

/-- The block that a split divides, and what there is afterwards. -/
theorem Split.exists_block (hsplit : Split hit r r') (h : Sound nodes r) :
    ∃ block ∈ r.partition, block.filter hit ≠ [] ∧ (block.filter fun q => !hit q) ≠ [] ∧
      r'.worklist =
        reschedule block (block.filter hit) (block.filter fun q => !hit q) r.worklist ∧
      ∀ c, c ∈ r'.partition ↔ c = block.filter hit ∨ (c = block.filter fun q => !hit q) ∨
        c ∈ r.partition ∧ c ≠ block := by
  have hnodup := h.nodup_partition
  cases hsplit with
  | intro front block back worklist hinside houtside =>
      refine ⟨block, by simp, hinside, houtside, rfl, fun c => ?_⟩
      have hfront : block ∉ front ++ back := (List.nodup_middle.1 hnodup).notMem
      simp only [List.mem_append, not_or] at hfront
      simp only [List.mem_append, List.mem_cons]
      constructor
      · intro hc
        obtain hc | hc | hc | hc := hc
        · exact .inr (.inr ⟨.inl hc, fun heq => hfront.1 (heq ▸ hc)⟩)
        · exact .inl hc
        · exact .inr (.inl hc)
        · exact .inr (.inr ⟨.inr (.inr hc), fun heq => hfront.2 (heq ▸ hc)⟩)
      · intro hc
        obtain hc | hc | ⟨hc | hc | hc, hne⟩ := hc
        · exact .inr (.inl hc)
        · exact .inr (.inr (.inl hc))
        · exact .inl hc
        · exact absurd hc hne
        · exact .inr (.inr (.inr hc))

/-! ## The worklist after a split -/

section Reschedule

variable {block inside outside c : Block} {worklist : List Block}

theorem mem_reschedule (hnodup : worklist.Nodup)
    (h : c ∈ reschedule block inside outside worklist) :
    c = inside ∨ c = outside ∨ c ∈ worklist ∧ c ≠ block := by
  rw [reschedule] at h
  by_cases hmem : block ∈ worklist
  · rw [if_pos hmem, List.mem_cons, List.mem_cons, hnodup.mem_erase_iff] at h
    grind
  · rw [if_neg hmem, List.mem_cons] at h
    grind

/-- What waits goes on waiting, but for the block that was divided. -/
theorem mem_reschedule_of_ne (h : c ∈ worklist) (hne : c ≠ block) :
    c ∈ reschedule block inside outside worklist := by
  rw [reschedule]
  by_cases hmem : block ∈ worklist
  · rw [if_pos hmem]
    exact List.mem_cons_of_mem _ (List.mem_cons_of_mem _ ((List.mem_erase_of_ne hne).2 h))
  · rw [if_neg hmem]
    exact List.mem_cons_of_mem _ h

/-- Of a block that waited both halves wait. -/
theorem halves_mem_reschedule (inside outside : Block) (h : block ∈ worklist) :
    inside ∈ reschedule block inside outside worklist ∧
      outside ∈ reschedule block inside outside worklist := by
  simp [reschedule, h]

/-- One of the halves waits in any case. -/
theorem half_mem_reschedule :
    inside ∈ reschedule block inside outside worklist ∨
      outside ∈ reschedule block inside outside worklist := by
  by_cases hmem : block ∈ worklist
  · exact .inl (halves_mem_reschedule _ _ hmem).1
  · by_cases hlen : inside.length ≤ outside.length
    · simp [reschedule, hmem, hlen]
    · simp [reschedule, hmem, hlen]

/-- Nodes that wait go on waiting. -/
theorem waits_reschedule {q : Node} (hcases : ∀ q ∈ block, q ∈ inside ∨ q ∈ outside)
    (h : ∃ c ∈ worklist, q ∈ c) : ∃ c ∈ reschedule block inside outside worklist, q ∈ c := by
  obtain ⟨c, hc, hq⟩ := h
  by_cases heq : c = block
  · have hboth := halves_mem_reschedule inside outside (heq ▸ hc)
    obtain hin | hout := hcases q (heq ▸ hq)
    · exact ⟨inside, hboth.1, hin⟩
    · exact ⟨outside, hboth.2, hout⟩
  · exact ⟨c, mem_reschedule_of_ne hc heq, hq⟩

theorem nodup_reschedule (hnodup : worklist.Nodup) (hne : inside ≠ outside)
    (hinside : inside ∉ worklist) (houtside : outside ∉ worklist) :
    (reschedule block inside outside worklist).Nodup := by
  rw [reschedule]
  by_cases hmem : block ∈ worklist
  · rw [if_pos hmem, List.nodup_cons, List.nodup_cons]
    refine ⟨?_, fun h => hinside (List.mem_of_mem_erase h), hnodup.erase block⟩
    intro h
    obtain h | h := List.mem_cons.1 h
    · exact hne h.symm
    · exact houtside (List.mem_of_mem_erase h)
  · rw [if_neg hmem, List.nodup_cons]
    refine ⟨?_, hnodup⟩
    by_cases hlen : inside.length ≤ outside.length
    · rw [if_pos hlen]
      exact hinside
    · rw [if_neg hlen]
      exact houtside

end Reschedule

/-! ## Steps keep the invariants -/

theorem Split.perm (h : Split hit r r') : r'.partition.flatten.Perm r.partition.flatten := by
  cases h with
  | intro front block back worklist _ _ =>
      have hperm : (block.filter hit ++ block.filter fun q => !hit q).Perm block :=
        List.filter_append_perm hit block
      simp only [List.flatten_append, List.flatten_cons, ← List.append_assoc]
      rw [List.append_assoc front.flatten]
      exact ((hperm.append_left _).append_right _)

theorem Sound.split (h : Sound nodes r) (hsplit : Split hit r r') : Sound nodes r' := by
  obtain ⟨block, hblock, hinside, houtside, hworklist, hpartition⟩ := hsplit.exists_block h
  obtain ⟨p, hp⟩ := List.exists_mem_of_ne_nil _ hinside
  obtain ⟨q, hq⟩ := List.exists_mem_of_ne_nil _ houtside
  have hpout : p ∉ block.filter fun q => !hit q := by
    simp [(List.mem_filter.1 hp).2]
  have hqin : q ∉ block.filter hit := by
    have hnot := (List.mem_filter.1 hq).2
    simp_all
  have hnotin := h.not_mem_of_subset hblock List.filter_sublist.subset hinside
    (List.mem_filter.1 hq).1 hqin
  have hnotout := h.not_mem_of_subset hblock List.filter_sublist.subset houtside
    (List.mem_filter.1 hp).1 hpout
  constructor
  · exact h.distinct
  · exact hsplit.perm.trans h.perm
  · intro c hc
    obtain hc | hc | ⟨hc, _⟩ := (hpartition c).1 hc
    · exact hc ▸ hinside
    · exact hc ▸ houtside
    · exact h.nonempty c hc
  · intro c hc
    rw [hworklist] at hc
    rw [hpartition]
    obtain hc | hc | ⟨hc, hne⟩ := mem_reschedule h.nodup hc
    · exact .inl hc
    · exact .inr (.inl hc)
    · exact .inr (.inr ⟨h.waiting c hc, hne⟩)
  · rw [hworklist]
    apply nodup_reschedule h.nodup
    · intro heq
      exact hpout (heq ▸ hp)
    · exact fun hc => hnotin (h.waiting _ hc)
    · exact fun hc => hnotout (h.waiting _ hc)

/-- Whether each block waits, or is what is left of a set of a family when nodes that wait
are taken away. -/
def Covered (family : (Node → Prop) → Prop) (r : Refinement) : Prop :=
  ∀ block ∈ r.partition, block ∈ r.worklist ∨
    ∃ X, family X ∧ (∀ q ∈ block, X q) ∧ ∀ q, X q → q ∈ block ∨ ∃ c ∈ r.worklist, q ∈ c

/-- Of a covered block that is divided each half is covered: it waits, or it is what the
other half, which waits then, leaves of the block. -/
theorem covered_half {family : (Node → Prop) → Prop} {block half other : Block}
    {worklist worklist' : List Block}
    (h : block ∈ worklist ∨
      ∃ X, family X ∧ (∀ q ∈ block, X q) ∧ ∀ q, X q → q ∈ block ∨ ∃ c ∈ worklist, q ∈ c)
    (hsub : half ⊆ block) (hcases : ∀ q ∈ block, q ∈ half ∨ q ∈ other)
    (hwaits : ∀ q, (∃ c ∈ worklist, q ∈ c) → ∃ c ∈ worklist', q ∈ c)
    (hboth : block ∈ worklist → half ∈ worklist') (hone : half ∈ worklist' ∨ other ∈ worklist') :
    half ∈ worklist' ∨
      ∃ X, family X ∧ (∀ q ∈ half, X q) ∧ ∀ q, X q → q ∈ half ∨ ∃ c ∈ worklist', q ∈ c := by
  obtain hjoins | hjoins := hone
  · exact .inl hjoins
  · obtain hmem | ⟨X, hX, hincl, hrest⟩ := h
    · exact .inl (hboth hmem)
    · refine .inr ⟨X, hX, fun q hq => hincl q (hsub hq), fun q hq => ?_⟩
      obtain hq | hq := hrest q hq
      · obtain hq | hq := hcases q hq
        · exact .inl hq
        · exact .inr ⟨other, hjoins, hq⟩
      · exact .inr (hwaits q hq)

/-- A split keeps the blocks covered. -/
theorem Covered.split {family : (Node → Prop) → Prop} (h : Covered family r)
    (hr : Sound nodes r) (hsplit : Split hit r r') : Covered family r' := by
  obtain ⟨block, hblock, _, _, hworklist, hpartition⟩ := hsplit.exists_block hr
  have hcases : ∀ q ∈ block, q ∈ block.filter hit ∨ q ∈ block.filter fun q => !hit q := by
    intro q hq
    cases hhit : hit q <;> simp [hq, hhit]
  have hwaits : ∀ q, (∃ c ∈ r.worklist, q ∈ c) → ∃ c ∈ r'.worklist, q ∈ c := by
    rw [hworklist]
    exact fun q => waits_reschedule hcases
  intro c hc
  obtain hc | hc | ⟨hc, hne⟩ := (hpartition c).1 hc
  · rw [hc]
    apply covered_half (h block hblock) List.filter_sublist.subset hcases hwaits
    · rw [hworklist]
      exact fun hmem => (halves_mem_reschedule _ _ hmem).1
    · rw [hworklist]
      exact half_mem_reschedule
  · rw [hc]
    apply covered_half (h block hblock) List.filter_sublist.subset
      (fun q hq => (hcases q hq).symm) hwaits
    · rw [hworklist]
      exact fun hmem => (halves_mem_reschedule _ _ hmem).2
    · rw [hworklist]
      exact half_mem_reschedule.symm
  · obtain hmem | ⟨X, hX, hincl, hrest⟩ := h c hc
    · rw [hworklist]
      exact .inl (mem_reschedule_of_ne hmem hne)
    · exact .inr ⟨X, hX, hincl, fun q hq => (hrest q hq).imp id (hwaits q)⟩

/-- Whether nodes that are related stay together. -/
def Saturated (same : Node → Node → Prop) (nodes : List Node) (blocks : List Block) : Prop :=
  ∀ block ∈ blocks, ∀ p ∈ block, ∀ q ∈ nodes, same p q → q ∈ block

theorem Saturated.split {same : Node → Node → Prop} (h : Saturated same nodes r.partition)
    (hr : Sound nodes r) (hhit : ∀ p ∈ nodes, ∀ q ∈ nodes, same p q → hit p = hit q)
    (hsplit : Split hit r r') : Saturated same nodes r'.partition := by
  obtain ⟨block, hblock, _, _, _, hpartition⟩ := hsplit.exists_block hr
  intro c hc p hp q hq hsame
  have hpart : ∀ f : Node → Bool, (hit p = hit q → f p = f q) → p ∈ block.filter f →
      q ∈ block.filter f := by
    intro f hf hp
    obtain ⟨hpblock, hfp⟩ := List.mem_filter.1 hp
    have heq := hf (hhit p (hr.mem_nodes hblock hpblock) q hq hsame)
    exact List.mem_filter.2 ⟨h block hblock p hpblock q hq hsame, heq ▸ hfp⟩
  obtain hc | hc | ⟨hc, _⟩ := (hpartition c).1 hc
  · rw [hc] at hp ⊢
    exact hpart hit id hp
  · rw [hc] at hp ⊢
    exact hpart (fun q => !hit q) (congrArg not) hp
  · exact h c hc p hp q hq hsame

end Refinement

end FormalMachines.Finite
