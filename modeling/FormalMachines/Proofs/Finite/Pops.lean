import FormalMachines.Proofs.Finite.Canonical

/-!
# FormalMachines.Proofs.Finite.Pops

How many splitters Hopcroft's refinement takes.

A step takes one block off the worklist, and each split puts one back and adds one to the
partition.  At the start every block waits, so after so many steps the worklist is shorter
than the partition by just as many (`Invariant.after?`).  The loop ends when nothing waits:
after exactly as many steps as there are blocks in the end (`minimise_pops`).
-/

namespace FormalMachines.Finite

namespace Refinement

variable {σ : Type}

/-- The refinement after so many steps, if there are as many. -/
def after? (successor : Node → σ → Node) (letters : List σ) : Nat → Refinement → Option Refinement
  | 0, r => some r
  | n + 1, r => (r.step? successor letters).bind (after? successor letters n)

variable {successor : Node → σ → Node} {letters : List σ} {accepting nodes : Block}
  {r r' : Refinement} {n : Nat}

theorem step?_eq_none_iff : r.step? successor letters = none ↔ r.worklist = [] := by
  unfold step?
  cases r.worklist <;> simp

/-- **So many steps** keep the invariant, and each takes one block more off the worklist than
it adds to it and the partition alike. -/
theorem Invariant.after? (h : Invariant successor letters accepting nodes r)
    (hclosed : ∀ q ∈ nodes, ∀ a ∈ letters, successor q a ∈ nodes)
    (hafter : r.after? successor letters n = some r') :
    Invariant successor letters accepting nodes r' ∧
      r'.worklist.length + n + r.partition.length = r.worklist.length + r'.partition.length := by
  induction n generalizing r with
  | zero =>
      cases hafter
      exact ⟨h, rfl⟩
  | succ n ih =>
      obtain ⟨next, hstep, hrest⟩ := Option.bind_eq_some_iff.1 hafter
      obtain ⟨hnext, hbalance⟩ := h.step hclosed hstep
      obtain ⟨hend, hrest⟩ := ih hnext hrest
      exact ⟨hend, by omega⟩

/-- A refinement within a bound is what so many steps lead to. -/
theorem exists_after?_eq_refine (successor : Node → σ → Node) (letters : List σ) (bound : Nat)
    (r : Refinement) :
    ∃ n, r.after? successor letters n = some (r.refine successor letters bound) := by
  induction bound generalizing r with
  | zero => exact ⟨0, rfl⟩
  | succ bound ih =>
      rw [refine]
      cases hstep : r.step? successor letters with
      | none => exact ⟨0, rfl⟩
      | some next =>
          obtain ⟨n, hn⟩ := ih next
          exact ⟨n + 1, by rw [Refinement.after?, hstep, Option.bind_some, hn]⟩

/-- No step follows once nothing waits. -/
theorem after?_eq_none_of_lt {m : Nat} (hafter : r.after? successor letters m = some r')
    (hnil : r'.worklist = []) (hlt : m < n) : r.after? successor letters n = none := by
  induction m generalizing r n with
  | zero =>
      cases n with
      | zero => exact absurd hlt (Nat.lt_irrefl 0)
      | succ n =>
          cases hafter
          rw [Refinement.after?, step?_eq_none_iff.2 hnil, Option.bind_none]
  | succ m ih =>
      cases n with
      | zero => exact absurd hlt (Nat.not_lt_zero _)
      | succ n =>
          obtain ⟨next, hstep, hrest⟩ := Option.bind_eq_some_iff.1 hafter
          rw [Refinement.after?, hstep, Option.bind_some]
          exact ih hrest (Nat.lt_of_succ_lt_succ hlt)

/-- **The loop ends** after as many steps as there are blocks in the end. -/
theorem after?_length_coarsestPartition {others : Block} (hnodup : (accepting ++ others).Nodup)
    (hclosed : ∀ q ∈ accepting ++ others, ∀ a ∈ letters, successor q a ∈ accepting ++ others) :
    ∃ r, (ofGroups [accepting, others]).after? successor letters
        (coarsestPartition successor letters accepting others).length = some r ∧
      r.partition = coarsestPartition successor letters accepting others ∧ r.worklist = [] := by
  have hstart := invariant_ofGroups successor letters hnodup
  have hlength : (ofGroups [accepting, others]).worklist.length =
      (ofGroups [accepting, others]).partition.length := List.length_reverse
  obtain ⟨n, hafter⟩ := exists_after?_eq_refine successor letters
    (accepting.length + others.length) (ofGroups [accepting, others])
  have hbound : (ofGroups [accepting, others]).worklist.length + (accepting ++ others).length ≤
      accepting.length + others.length + (ofGroups [accepting, others]).partition.length := by
    rw [hlength, List.length_append]
    omega
  obtain ⟨-, hnil⟩ := invariant_refine hclosed (accepting.length + others.length) hstart hbound
  obtain ⟨-, hbalance⟩ := hstart.after? hclosed hafter
  have hn : n = (coarsestPartition successor letters accepting others).length := by
    rw [hnil, List.length_nil] at hbalance
    change n = ((ofGroups [accepting, others]).refine successor letters
      (accepting.length + others.length)).partition.length
    omega
  exact ⟨_, hn ▸ hafter, rfl, hnil⟩

end Refinement

namespace Automaton

variable {a : Automaton} {letters : List Atom} {r : Refinement} {n : Nat}

/-- The refinement of the states of an automaton after so many splitters, if there are as
many. -/
def splitting (a : Automaton) (letters : List Atom) (pops : Nat) : Option Refinement :=
  let states := a.reachable letters
  let accepting := states.filter (· ∈ a.accepting)
  let others := states.filter (· ∉ a.accepting)
  (Refinement.ofGroups [accepting.map some, others.map some ++ [none]]).after? a.successor letters
    pops

/-- Whether a refinement is a partition of the states that can be reached and the sink, and
its worklist holds some of the blocks, each once.  The blocks are sets: a node is in a block
once, and in no other. -/
structure Partitions (a : Automaton) (letters : List Atom) (r : Refinement) : Prop where
  nonempty : ∀ block ∈ r.partition, block ≠ []
  nodup : ∀ block ∈ r.partition, block.Nodup
  disjoint : r.partition.Pairwise List.Disjoint
  covers : ∀ x, (∃ block ∈ r.partition, x ∈ block) ↔
    x = none ∨ ∃ q ∈ a.reachable letters, x = some q
  verdict : ∀ block ∈ r.partition,
    (∀ x ∈ block, ∃ q ∈ a.accepting, x = some q) ∨ ∀ x ∈ block, ¬ ∃ q ∈ a.accepting, x = some q
  waiting : r.worklist ⊆ r.partition
  once : r.worklist.Nodup ∧ r.worklist.Pairwise List.Disjoint

theorem invariant_splitting (hletters : a.letters .literal = .ok letters)
    (h : a.splitting letters n = some r) :
    Refinement.Invariant a.successor letters
        (((a.reachable letters).filter (· ∈ a.accepting)).map some) (a.nodes letters) r ∧
      r.worklist.length + n = r.partition.length := by
  have hstart := Refinement.invariant_ofGroups a.successor letters (a.nodup_nodes letters)
  obtain ⟨hinv, hbalance⟩ :=
    hstart.after? (fun _ hx _ _ => successor_mem_nodes hletters hx _) h
  refine ⟨hinv, ?_⟩
  simp only [Refinement.ofGroups, List.length_reverse] at hbalance
  omega

/-- A node of a block accepts with all others or with none. -/
theorem accepts_of_uniform {block : Block} (hblock : ∀ x ∈ block, x ∈ a.nodes letters)
    (h : ∀ x ∈ block, ∀ y ∈ block,
      x ∈ ((a.reachable letters).filter (· ∈ a.accepting)).map some ↔
        y ∈ ((a.reachable letters).filter (· ∈ a.accepting)).map some) :
    (∀ x ∈ block, ∃ q ∈ a.accepting, x = some q) ∨
      ∀ x ∈ block, ¬ ∃ q ∈ a.accepting, x = some q := by
  have hmem : ∀ x ∈ block, x ∈ ((a.reachable letters).filter (· ∈ a.accepting)).map some ↔
      ∃ q ∈ a.accepting, x = some q := by
    intro x hx
    rw [mem_accepting_iff (hblock x hx)]
    rfl
  by_cases hsome : ∃ x ∈ block, ∃ q ∈ a.accepting, x = some q
  · obtain ⟨x, hx, hacc⟩ := hsome
    exact .inl fun y hy => (hmem y hy).1 ((h x hx y hy).1 ((hmem x hx).2 hacc))
  · exact .inr fun x hx hacc => hsome ⟨x, hx, hacc⟩

/-- **Between any two steps** there is a partition, some blocks of which wait. -/
theorem partitions_of_splitting (hletters : a.letters .literal = .ok letters)
    (h : a.splitting letters n = some r) : a.Partitions letters r := by
  obtain ⟨hinv, -⟩ := invariant_splitting hletters h
  have hsound := hinv.sound
  obtain ⟨hnodup, hdisjoint⟩ :=
    List.nodup_flatten.1 (hsound.perm.nodup_iff.2 hsound.distinct)
  constructor
  · exact hsound.nonempty
  · exact hnodup
  · exact hdisjoint
  · intro x
    rw [← mem_nodes_iff, ← hsound.perm.mem_iff, List.mem_flatten]
  · exact fun block hblock => accepts_of_uniform (fun x hx => hsound.mem_nodes hblock hx)
      (hinv.verdict block hblock)
  · exact hsound.waiting
  · refine ⟨hsound.nodup, hsound.nodup.imp_of_mem fun hb hc hne q hqb hqc => ?_⟩
    exact hne (hsound.eq_of_mem (hsound.waiting _ hb) (hsound.waiting _ hc) hqb hqc)

/-- The loop of a minimisation ends with its blocks. -/
theorem exists_splitting_eq_blocks (hletters : a.letters .literal = .ok letters) :
    ∃ r, a.splitting letters (a.blocks letters).length = some r ∧
      r.partition = a.blocks letters ∧ r.worklist = [] :=
  Refinement.after?_length_coarsestPartition (a.nodup_nodes letters)
    fun _ hx _ _ => successor_mem_nodes hletters hx _

/-- Nothing waits after as many steps as there are blocks in the end, and not before. -/
theorem worklist_eq_nil_iff (hletters : a.letters .literal = .ok letters)
    (h : a.splitting letters n = some r) : r.worklist = [] ↔ n = (a.blocks letters).length := by
  obtain ⟨last, hlast, -, hnil⟩ := exists_splitting_eq_blocks hletters
  constructor
  · intro hr
    by_contra hne
    obtain hlt | hlt := Nat.lt_or_gt_of_ne hne
    · have hnone : a.splitting letters (a.blocks letters).length = none :=
        Refinement.after?_eq_none_of_lt h hr hlt
      rw [hlast] at hnone
      cases hnone
    · have hnone : a.splitting letters n = none :=
        Refinement.after?_eq_none_of_lt hlast hnil hlt
      rw [h] at hnone
      cases hnone
  · intro hn
    rw [hn, hlast] at h
    exact Option.some.inj h ▸ hnil

theorem length_nodes (a : Automaton) (letters : List Atom) :
    (a.nodes letters).length = (a.reachable letters).length + 1 := by
  have hsplit := List.length_eq_length_filter_add (l := a.reachable letters)
    (fun q => decide (q ∈ a.accepting))
  simp only [nodes, List.length_append, List.length_map, List.length_singleton, decide_not]
  omega

/-- There are no more blocks than states that can be reached, and the sink. -/
theorem length_blocks_le (hletters : a.letters .literal = .ok letters) :
    (a.blocks letters).length ≤ (a.reachable letters).length + 1 := by
  obtain ⟨r, hr, hblocks, -⟩ := exists_splitting_eq_blocks hletters
  obtain ⟨hinv, -⟩ := invariant_splitting hletters hr
  rw [← length_nodes, ← hblocks]
  exact hinv.sound.length_le

/-- **How many splitters are taken.**  At the start of every step of the loop in a
minimisation there is a partition of the states that can be reached and the sink, some blocks
of which wait, as many fewer than all as splitters were taken.  Nothing waits after exactly as
many steps as there are blocks in the end, which are no more than the states that can be
reached and one; with these blocks the loop ends. -/
theorem minimise_pops (hdet : a.isDeterministic) (hletters : a.letters .literal = .ok letters) :
    a.minimise = .ok (a.minimalAutomaton letters) ∧
      (∀ n r, a.splitting letters n = some r → a.Partitions letters r ∧
        r.worklist.length + n = r.partition.length ∧
        (r.worklist = [] ↔ n = (a.blocks letters).length)) ∧
      (∃ r, a.splitting letters (a.blocks letters).length = some r ∧
        r.partition = a.blocks letters) ∧
      (∀ n, (a.blocks letters).length < n → a.splitting letters n = none) ∧
      (a.blocks letters).length ≤ (a.reachable letters).length + 1 := by
  obtain ⟨last, hlast, hblocks, hnil⟩ := exists_splitting_eq_blocks hletters
  refine ⟨minimise_eq_minimalAutomaton hletters hdet, fun n r h => ⟨?_, ?_, ?_⟩,
    ⟨last, hlast, hblocks⟩, fun n hlt => ?_, length_blocks_le hletters⟩
  · exact partitions_of_splitting hletters h
  · exact (invariant_splitting hletters h).2
  · exact worklist_eq_nil_iff hletters h
  · exact Refinement.after?_eq_none_of_lt hlast hnil hlt

/-- A state that accepts and three that lead to it: two under `a`, and one under `a` and
`b`. -/
def crossing : Automaton where
  states := [⟨"p", true, false⟩, ⟨"q", false, false⟩, ⟨"r", false, false⟩, ⟨"s", false, true⟩]
  alphabet := [.text "a", .text "b"]
  transitions := [⟨"p", "q", .text "a"⟩, ⟨"p", "r", .text "b"⟩, ⟨"q", "s", .text "a"⟩,
    ⟨"r", "s", .text "a"⟩, ⟨"r", "s", .text "b"⟩]
  start := "p"
  accepting := ["s"]

/-- Five splitters are taken, one for each of its states and one for the sink. -/
theorem minimise_pops_crossing :
    crossing.isDeterministic ∧
      crossing.letters .literal = .ok [.text "a", .text "b"] ∧
      (crossing.blocks [.text "a", .text "b"]).length = 5 ∧
      (∀ n r, crossing.splitting [.text "a", .text "b"] n = some r →
        crossing.Partitions [.text "a", .text "b"] r ∧ (r.worklist = [] ↔ n = 5)) ∧
      ∃ r, crossing.splitting [.text "a", .text "b"] 5 = some r ∧ r.partition.length = 5 := by
  have hdet : crossing.isDeterministic := by decide +kernel
  have hletters : crossing.letters .literal = .ok [.text "a", .text "b"] := by rfl
  have hlength : (crossing.blocks [.text "a", .text "b"]).length = 5 := by decide +kernel
  obtain ⟨-, hloop, ⟨r, hr, hblocks⟩, -, -⟩ := minimise_pops hdet hletters
  rw [hlength] at hloop hr
  exact ⟨hdet, hletters, hlength, fun n r h => ⟨(hloop n r h).1, (hloop n r h).2.2⟩,
    r, hr, hblocks ▸ hlength⟩

end Automaton

end FormalMachines.Finite
