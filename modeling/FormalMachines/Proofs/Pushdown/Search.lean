import FormalMachines.Proofs.Pushdown.Record
import FormalMachines.Pushdown.Report

/-!
# FormalMachines.Proofs.Pushdown.Search

The search for an accepting run finds a shortest one, and gives up for good only if there
is none.

The invariant of the search (`Invariant`) speaks of the paths already taken and those
still pending, together the paths *found*.  What carries the proof is that the paths
taken are closed: a configuration one move behind one of them was found too, by a path no
longer, unless the step limit cut it off.  From this alone it follows that a
configuration within reach is found or lies behind a shorter pending path
(`Invariant.found_or_pending`), and as paths are taken in the order of their length, that
is all that a shortest run, an exhausted queue and a spent budget need.

`resumeCounted` is the search with the number of configurations it expanded.
-/

namespace FormalMachines.Pushdown

namespace Search

/-! ## Counting expansions -/

/-- Continues a search like `resume`, and tells how many configurations were expanded. -/
def resumeCounted (a : Automaton) (input : Text) (limit : Nat) (cancel : Cancellation) :
    Nat → Nat → Search → Run Step × Nat
  | left, expanded, s =>
    match s.pending.pop? with
    | none => (s.failure input (if s.truncated then .budgetExhausted else .rejected), expanded)
    | some (p, rest) =>
      if cancel.raisedAt expanded then (s.failure input .cancelled, expanded)
      else if a.isAccepting input p.final then (⟨p.trace input true, true, .accepted⟩, expanded)
      else
        let s := noteFurthest p { s with pending := rest }
        match left with
        | 0 => (s.failure input .budgetExhausted, expanded)
        | more + 1 =>
          resumeCounted a input limit cancel more (expanded + 1) (s.expand a input limit p)

theorem fst_resumeCounted (a : Automaton) (input : Text) (limit : Nat) (cancel : Cancellation)
    (left expanded : Nat) (s : Search) :
    (resumeCounted a input limit cancel left expanded s).1 =
      resume a input limit cancel left expanded s := by
  induction left generalizing expanded s with
  | zero =>
      unfold resumeCounted resume
      cases s.pending.pop? with
      | none => rfl
      | some r =>
          simp only
          split
          · rfl
          · split
            · rfl
            · rfl
  | succ left ih =>
      unfold resumeCounted resume
      cases s.pending.pop? with
      | none => rfl
      | some r =>
          simp only
          split
          · rfl
          · split
            · rfl
            · exact ih _ _

/-! ## Discovering -/

/-- What discovering paths does to a search: those that lead to new configurations join
the queue at its end, and all their configurations have been met. -/
structure Discovers (paths fresh : List Path) (s s' : Search) : Prop where
  pending : s'.pending.toList = s.pending.toList ++ fresh
  subset : ∀ p ∈ fresh, p ∈ paths
  seen : ∀ c, c ∈ s'.seen ↔ c ∈ s.seen ∨ ∃ p ∈ fresh, p.final = c
  met : ∀ p ∈ paths, p.final ∈ s'.seen
  truncated : s'.truncated = s.truncated

theorem discover_of_mem {s : Search} {p : Path} (h : p.final ∈ s.seen) : s.discover p = s := by
  rw [discover, if_pos h]

theorem discover_of_not_mem {s : Search} {p : Path} (h : p.final ∉ s.seen) :
    s.discover p = { s with pending := s.pending.push p, seen := s.seen.insert p.final } := by
  rw [discover, if_neg h]

theorem discovers_foldl (paths : List Path) (s : Search) :
    ∃ fresh, Discovers paths fresh s (paths.foldl discover s) := by
  induction paths generalizing s with
  | nil => exact ⟨[], by simp, by simp, by simp, by simp, rfl⟩
  | cons p paths ih =>
      obtain ⟨fresh, h⟩ := ih (s.discover p)
      rw [List.foldl_cons]
      by_cases hseen : p.final ∈ s.seen
      · rw [discover_of_mem hseen] at h ⊢
        refine ⟨fresh, h.pending, fun q hq => List.mem_cons_of_mem p (h.subset q hq), h.seen, ?_,
          h.truncated⟩
        intro q hq
        obtain hqp | hq := List.mem_cons.1 hq
        · exact (h.seen _).2 (.inl (hqp ▸ hseen))
        · exact h.met q hq
      · rw [discover_of_not_mem hseen] at h ⊢
        have hall : ∀ c, c ∈ (paths.foldl discover
            { s with pending := s.pending.push p, seen := s.seen.insert p.final }).seen ↔
              c ∈ s.seen ∨ ∃ q ∈ p :: fresh, q.final = c := by
          intro c
          rw [h.seen, Std.HashSet.mem_insert, beq_iff_eq]
          simp only [List.mem_cons, exists_eq_or_imp]
          exact or_assoc.trans or_left_comm
        refine ⟨p :: fresh, ?_, ?_, hall, ?_, h.truncated⟩
        · rw [h.pending, Queue.toList_push, List.append_assoc]
          rfl
        · intro q hq
          obtain hqp | hq := List.mem_cons.1 hq
          · simp [hqp]
          · simp [h.subset q hq]
        · intro q hq
          obtain hqp | hq := List.mem_cons.1 hq
          · exact (hall _).2 (.inr ⟨p, by simp, by rw [hqp]⟩)
          · exact h.met q hq

/-! ## What a search keeps -/

/-- What holds throughout a search of the paths taken so far and of the pending ones. -/
structure Invariant (a : Automaton) (input : Text) (limit : Nat) (taken : List Path)
    (s : Search) : Prop where
  /-- Every path found is a run within the step limit. -/
  runs : ∀ p ∈ taken ++ s.pending.toList, p.IsRun a input ∧ p.length ≤ limit
  /-- The start was found. -/
  start : ∃ p ∈ taken ++ s.pending.toList, p.final = a.initial ∧ p.length = 0
  /-- The configurations met are those found. -/
  seen : ∀ c, c ∈ s.seen ↔ ∃ p ∈ taken ++ s.pending.toList, p.final = c
  /-- Paths are found in the order of their length. -/
  ordered : (taken ++ s.pending.toList).Pairwise (·.length ≤ ·.length)
  /-- The pending paths differ by one move at most. -/
  level : ∀ p ∈ s.pending.toList, ∀ q ∈ s.pending.toList, q.length ≤ p.length + 1
  /-- What continues a path taken was found, unless the step limit cut it off. -/
  closed : ∀ p ∈ taken, ∀ q ∈ p.successors a input,
    (∃ r ∈ taken ++ s.pending.toList, r.final = q.final ∧ r.length ≤ q.length) ∨
      (s.truncated = true ∧ limit ≤ p.length)
  /-- No path taken accepts. -/
  refused : ∀ p ∈ taken, a.isAccepting input p.final = false

variable {a : Automaton} {input : Text} {limit : Nat} {taken : List Path} {s : Search}
  {p : Path}

theorem invariant_initial (a : Automaton) (input : Text) (limit : Nat) :
    Invariant a input limit [] (.initial a) := by
  have hlist : (Search.initial a).pending.toList = [Path.start a.initial] := rfl
  constructor
  · intro p hp
    rw [List.mem_singleton.1 hp]
    exact ⟨rfl, Nat.zero_le limit⟩
  · exact ⟨_, List.mem_singleton_self _, rfl, rfl⟩
  · intro c
    rw [List.nil_append, hlist]
    simp [Search.initial, Path.final]
  · exact List.pairwise_singleton _ _
  · intro p hp q hq
    rw [List.mem_singleton.1 hp, List.mem_singleton.1 hq]
    exact Nat.le_succ _
  · exact fun p hp => absurd hp List.not_mem_nil
  · exact fun p hp => absurd hp List.not_mem_nil

/-- **A configuration within reach** is found by a path as short, or lies behind a shorter
pending path. -/
theorem Invariant.found_or_pending (h : Invariant a input limit taken s) {n : Nat}
    (hn : n ≤ limit ∨ s.truncated = false) {c : Configuration} (hc : a.Reaches input n c) :
    (∃ p ∈ taken ++ s.pending.toList, p.final = c ∧ p.length ≤ n) ∨
      ∃ p ∈ s.pending.toList, p.length < n := by
  induction n generalizing c with
  | zero =>
      obtain ⟨p, hp, hfinal, hlen⟩ := h.start
      exact .inl ⟨p, hp, by rw [hfinal, Automaton.reaches_zero_iff.1 hc], Nat.le_of_eq hlen⟩
  | succ n ih =>
      obtain ⟨e, he, t, hmem, hallows, hfire⟩ := Automaton.reaches_succ_iff.1 hc
      have hn' : n ≤ limit ∨ s.truncated = false := hn.imp_left Nat.le_of_succ_le
      obtain ⟨p, hp, hfinal, hlen⟩ | ⟨p, hp, hlen⟩ := ih hn' he
      · obtain htaken | hpending := List.mem_append.1 hp
        · have hsucc : p.extend t ∈ p.successors a input :=
            Path.mem_successors_iff.2 ⟨t, ⟨hmem, hfinal ▸ hallows⟩, rfl⟩
          obtain ⟨q, hq, hqfinal, hqlen⟩ | ⟨htrunc, hlimit⟩ := h.closed p htaken _ hsucc
          · rw [Path.final_extend, hfinal, ← hfire] at hqfinal
            rw [Path.length_extend] at hqlen
            exact .inl ⟨q, hq, hqfinal, by omega⟩
          · -- the step limit cuts off only what is beyond it
            obtain hn | hn := hn
            · omega
            · rw [hn] at htrunc
              cases htrunc
        · exact .inr ⟨p, hpending, by omega⟩
      · exact .inr ⟨p, hp, by omega⟩

end Search

namespace Queue

theorem toList_of_pop? {q rest : Queue} {p : Path} (h : q.pop? = some (p, rest)) :
    q.toList = p :: rest.toList := by
  have heq := pop?_eq q
  rw [h] at heq
  cases hlist : q.toList with
  | nil => simp [hlist] at heq
  | cons r more => simpa [hlist, eq_comm] using heq

theorem toList_of_pop?_eq_none {q : Queue} (h : q.pop? = none) : q.toList = [] := by
  have heq := pop?_eq q
  rw [h] at heq
  cases hlist : q.toList with
  | nil => rfl
  | cons r more => simp [hlist] at heq

end Queue

namespace Search

variable {a : Automaton} {input : Text} {limit : Nat} {taken : List Path} {s : Search}
  {p : Path}

/-! ## Expanding -/

/-- What expanding a path does to a search. -/
structure Expands (a : Automaton) (input : Text) (limit : Nat) (p : Path)
    (fresh : List Path) (s s' : Search) : Prop where
  pending : s'.pending.toList = s.pending.toList ++ fresh
  subset : ∀ q ∈ fresh, q ∈ p.successors a input ∧ p.length < limit
  seen : ∀ c, c ∈ s'.seen ↔ c ∈ s.seen ∨ ∃ q ∈ fresh, q.final = c
  met : ∀ q ∈ p.successors a input,
    q.final ∈ s'.seen ∨ (s'.truncated = true ∧ limit ≤ p.length)
  truncated : s.truncated = true → s'.truncated = true

theorem expands_expand (a : Automaton) (input : Text) (limit : Nat) (p : Path) (s : Search) :
    ∃ fresh, Expands a input limit p fresh s (s.expand a input limit p) := by
  unfold expand
  by_cases hempty : (p.successors a input).isEmpty
  · have hnil : p.successors a input = [] := List.isEmpty_iff.1 hempty
    exact ⟨[], by simp [hempty], by simp, by simp [hempty], by simp [hnil], by simp [hempty]⟩
  · simp only [hempty, Bool.false_eq_true, if_false]
    by_cases hlimit : limit ≤ p.length
    · rw [if_pos hlimit]
      exact ⟨[], by simp, by simp, by simp, fun _ _ => .inr ⟨rfl, hlimit⟩, fun _ => rfl⟩
    · rw [if_neg hlimit]
      obtain ⟨fresh, h⟩ := discovers_foldl (p.successors a input) s
      refine ⟨fresh, h.pending, fun q hq => ⟨h.subset q hq, by omega⟩, h.seen,
        fun q hq => .inl (h.met q hq), fun htrunc => ?_⟩
      rw [h.truncated, htrunc]

theorem furthest_foldl_discover (paths : List Path) (s : Search) :
    (paths.foldl discover s).furthest = s.furthest := by
  induction paths generalizing s with
  | nil => rfl
  | cons p paths ih =>
      rw [List.foldl_cons, ih, discover]
      split <;> rfl

theorem furthest_expand (a : Automaton) (input : Text) (limit : Nat) (p : Path) (s : Search) :
    (s.expand a input limit p).furthest = s.furthest := by
  unfold expand
  dsimp only
  split
  · rfl
  · split
    · rfl
    · exact furthest_foldl_discover _ s

theorem furthest_noteFurthest (p : Path) (s : Search) : (noteFurthest p s).furthest =
    if s.furthest.final.position < p.final.position then p else s.furthest := by
  unfold noteFurthest
  split <;> rfl

@[simp] theorem pending_noteFurthest (p : Path) (s : Search) :
    (noteFurthest p s).pending = s.pending := by
  unfold noteFurthest
  split <;> rfl

@[simp] theorem seen_noteFurthest (p : Path) (s : Search) :
    (noteFurthest p s).seen = s.seen := by
  unfold noteFurthest
  split <;> rfl

@[simp] theorem truncated_noteFurthest (p : Path) (s : Search) :
    (noteFurthest p s).truncated = s.truncated := by
  unfold noteFurthest
  split <;> rfl

/-- What expanding a run finds are runs with one move more. -/
theorem Expands.isRun {fresh : List Path} {s' : Search}
    (hexp : Expands a input limit p fresh s s') (hp : p.IsRun a input) {q : Path}
    (hq : q ∈ fresh) : q.IsRun a input ∧ q.length = p.length + 1 :=
  hp.successor (hexp.subset q hq).1

section First

variable (h : Invariant a input limit taken s) {rest fresh : List Path}
  (hlist : s.pending.toList = p :: rest)

include h hlist

/-- The first pending path is one of the shortest. -/
theorem Invariant.first_le {q : Path} (hq : q ∈ s.pending.toList) : p.length ≤ q.length := by
  have hordered := (List.pairwise_append.1 h.ordered).2.1
  rw [hlist] at hordered hq
  obtain hqp | hq := List.mem_cons.1 hq
  · exact Nat.le_of_eq (by rw [hqp])
  · exact (List.pairwise_cons.1 hordered).1 q hq

/-- No path found is more than one move longer than the first pending one. -/
theorem Invariant.le_first {q : Path} (hq : q ∈ taken ++ s.pending.toList) :
    q.length ≤ p.length + 1 := by
  have hp : p ∈ s.pending.toList := by simp [hlist]
  obtain htaken | hq := List.mem_append.1 hq
  · have hle := (List.pairwise_append.1 h.ordered).2.2 q htaken p hp
    omega
  · exact h.level p hp q hq

variable (hfresh : ∀ q ∈ fresh, q.length = p.length + 1)

include hfresh

theorem Invariant.ordered_take :
    (taken ++ s.pending.toList ++ fresh).Pairwise (·.length ≤ ·.length) := by
  rw [List.pairwise_append]
  refine ⟨h.ordered, ?_, ?_⟩
  · exact List.pairwise_of_forall_mem_list fun q hq r hr =>
      Nat.le_of_eq ((hfresh q hq).trans (hfresh r hr).symm)
  · intro q hq r hr
    rw [hfresh r hr]
    exact h.le_first hlist hq

theorem Invariant.level_take :
    ∀ q ∈ rest ++ fresh, ∀ r ∈ rest ++ fresh, r.length ≤ q.length + 1 := by
  intro q hq r hr
  have hpq : p.length ≤ q.length := by
    obtain hq | hq := List.mem_append.1 hq
    · exact h.first_le hlist (by simp [hlist, hq])
    · have := hfresh q hq
      omega
  have hrp : r.length ≤ p.length + 1 := by
    obtain hr | hr := List.mem_append.1 hr
    · exact h.le_first hlist (by simp [hlist, hr])
    · exact Nat.le_of_eq (hfresh r hr)
  omega

/-- No path found by then is longer than one that continues the first pending path. -/
theorem Invariant.le_successor (hp : p.IsRun a input) {q r : Path}
    (hq : q ∈ p.successors a input) (hr : r ∈ taken ++ s.pending.toList ++ fresh) :
    r.length ≤ q.length := by
  have hlen := (hp.successor hq).2
  obtain hr | hr := List.mem_append.1 hr
  · have := h.le_first hlist hr
    omega
  · have := hfresh r hr
    omega

end First

/-- Taking the first pending path and expanding it keeps the invariant. -/
theorem Invariant.take (h : Invariant a input limit taken s) {rest : Queue}
    (hpop : s.pending.pop? = some (p, rest)) (hrefused : a.isAccepting input p.final = false) :
    Invariant a input limit (taken ++ [p])
      ((noteFurthest p { s with pending := rest }).expand a input limit p) := by
  have hlist : s.pending.toList = p :: rest.toList := Queue.toList_of_pop? hpop
  obtain ⟨fresh, hexp⟩ := expands_expand a input limit p
    (noteFurthest p { s with pending := rest })
  generalize (noteFurthest p { s with pending := rest }).expand a input limit p = s' at hexp ⊢
  have hpending : s'.pending.toList = rest.toList ++ fresh := by simpa using hexp.pending
  have hfound : taken ++ [p] ++ s'.pending.toList = (taken ++ s.pending.toList) ++ fresh := by
    simp [hpending, hlist]
  have hp : p.IsRun a input := (h.runs p (by simp [hlist])).1
  have hfresh : ∀ q ∈ fresh, q.length = p.length + 1 := fun q hq => (hexp.isRun hp hq).2
  have hseen : ∀ c, c ∈ s'.seen ↔ ∃ q ∈ (taken ++ s.pending.toList) ++ fresh, q.final = c := by
    intro c
    rw [hexp.seen, seen_noteFurthest, h.seen]
    simp only [List.mem_append (t := fresh), or_and_right, exists_or]
  constructor
  · intro q hq
    rw [hfound] at hq
    obtain hq | hq := List.mem_append.1 hq
    · exact h.runs q hq
    · have hlimit := (hexp.subset q hq).2
      exact ⟨(hexp.isRun hp hq).1, by have := hfresh q hq; omega⟩
  · obtain ⟨q, hq, hfinal, hlen⟩ := h.start
    rw [hfound]
    exact ⟨q, List.mem_append_left _ hq, hfinal, hlen⟩
  · rw [hfound]
    exact hseen
  · rw [hfound]
    exact h.ordered_take hlist hfresh
  · rw [hpending]
    exact h.level_take hlist hfresh
  · rw [hfound]
    intro q hq r hr
    obtain hq | hq := List.mem_append.1 hq
    · -- an earlier path: what was found stays found, what was cut off stays cut off
      obtain ⟨u, hu, hfinal, hlen⟩ | ⟨htrunc, hlimit⟩ := h.closed q hq r hr
      · exact .inl ⟨u, List.mem_append_left _ hu, hfinal, hlen⟩
      · exact .inr ⟨hexp.truncated (by simpa using htrunc), hlimit⟩
    · rw [List.mem_singleton.1 hq] at hr ⊢
      obtain hmet | hcut := hexp.met r hr
      · obtain ⟨u, hu, hfinal⟩ := (hseen _).1 hmet
        exact .inl ⟨u, hu, hfinal, h.le_successor hlist hfresh hp hr hu⟩
      · exact .inr hcut
  · intro q hq
    obtain hq | hq := List.mem_append.1 hq
    · exact h.refused q hq
    · rw [List.mem_singleton.1 hq]
      exact hrefused

/-! ## How a search ends -/

/-- What a search with so many expansions at most tells of the accepting runs by its
record and by the number of configurations it expanded. -/
structure Answers (a : Automaton) (input : Text) (limit nodes : Nat) (r : Run Step × Nat) :
    Prop where
  accepted : r.1.outcome = .accepted → ∃ p : Path, p.IsRun a input ∧
    a.isAccepting input p.final ∧ r.1.trace = p.trace input true ∧ p.length ≤ limit ∧
    ∀ n, a.AcceptsWithin input n → p.length ≤ n
  found : a.AcceptsWithin input limit →
    r.1.outcome = .accepted ∨ r.1.outcome = .budgetExhausted ∧ r.2 = nodes
  rejected : r.1.outcome = .rejected → ∀ n, ¬ a.AcceptsWithin input n

/-- The first pending path is no longer than any accepting run. -/
theorem Invariant.length_le (h : Invariant a input limit taken s) {rest : Queue}
    (hpop : s.pending.pop? = some (p, rest)) {n : Nat} (hn : a.AcceptsWithin input n) :
    p.length ≤ n := by
  have hlist : s.pending.toList = p :: rest.toList := Queue.toList_of_pop? hpop
  obtain ⟨c, k, hk, hreaches, haccepting⟩ := hn
  apply Nat.le_of_not_lt
  intro hlt
  have hlimit : p.length ≤ limit := (h.runs p (by simp [hlist])).2
  obtain ⟨q, hq, hfinal, hlen⟩ | ⟨q, hq, hlen⟩ :=
    h.found_or_pending (.inl (by omega)) hreaches
  · obtain htaken | hpending := List.mem_append.1 hq
    · have hrefused := h.refused q htaken
      rw [hfinal, haccepting] at hrefused
      cases hrefused
    · have := h.first_le hlist hpending
      omega
  · have := h.first_le hlist hq
    omega

/-- A search with nothing pending has refused every configuration within reach. -/
theorem Invariant.not_accepting (h : Invariant a input limit taken s)
    (hpop : s.pending.pop? = none) {n : Nat} (hn : n ≤ limit ∨ s.truncated = false)
    {c : Configuration} (hc : a.Reaches input n c) : a.isAccepting input c = false := by
  have hlist : s.pending.toList = [] := Queue.toList_of_pop?_eq_none hpop
  obtain ⟨q, hq, hfinal, _⟩ | ⟨q, hq, _⟩ := h.found_or_pending hn hc
  · rw [hlist, List.append_nil] at hq
    exact hfinal ▸ h.refused q hq
  · rw [hlist] at hq
    exact absurd hq List.not_mem_nil

/-- The record of a failed search accepts nothing; it is right if an accepting run within
the step limit means that the nodes are spent, and a rejection that there is no accepting
run. -/
theorem answers_failure {nodes expanded : Nat} {outcome : Outcome}
    (hne : outcome ≠ .accepted)
    (hfound : a.AcceptsWithin input limit → outcome = .budgetExhausted ∧ expanded = nodes)
    (hrejected : outcome = .rejected → ∀ n, ¬ a.AcceptsWithin input n) :
    Answers a input limit nodes (s.failure input outcome, expanded) :=
  ⟨fun h => absurd h hne, fun h => .inr (hfound h), hrejected⟩

theorem answers_exhausted {nodes expanded : Nat} (h : Invariant a input limit taken s)
    (hpop : s.pending.pop? = none) :
    Answers a input limit nodes
      (s.failure input (if s.truncated then .budgetExhausted else .rejected), expanded) := by
  apply answers_failure
  · split <;> decide
  · intro ⟨c, k, hk, hreaches, haccepting⟩
    rw [h.not_accepting hpop (.inl hk) hreaches] at haccepting
    cases haccepting
  · intro hrejected n ⟨c, k, _, hreaches, haccepting⟩
    have htruncated : s.truncated = false := by
      cases htrunc : s.truncated with
      | false => rfl
      | true => simp [htrunc] at hrejected
    rw [h.not_accepting hpop (.inr htruncated) hreaches] at haccepting
    cases haccepting

theorem answers_accepting {nodes expanded : Nat} (h : Invariant a input limit taken s)
    {rest : Queue} (hpop : s.pending.pop? = some (p, rest))
    (haccepting : a.isAccepting input p.final) :
    Answers a input limit nodes (⟨p.trace input true, true, .accepted⟩, expanded) := by
  have hp := h.runs p (by simp [Queue.toList_of_pop? hpop])
  constructor
  · intro _
    exact ⟨p, hp.1, haccepting, rfl, hp.2, fun n hn => h.length_le hpop hn⟩
  · exact fun _ => .inl rfl
  · intro hrejected
    cases hrejected

/-- A search that keeps the invariant ends with a right answer. -/
theorem answers_resumeCounted (left expanded : Nat) (taken : List Path) (s : Search)
    (h : Invariant a input limit taken s) :
    Answers a input limit (expanded + left)
      (resumeCounted a input limit .never left expanded s) := by
  induction left generalizing expanded taken s with
  | zero =>
      unfold resumeCounted
      cases hpop : s.pending.pop? with
      | none => exact answers_exhausted h hpop
      | some r =>
          obtain ⟨p, rest⟩ := r
          simp only [Cancellation.raisedAt_never, Bool.false_eq_true, if_false]
          by_cases haccepting : a.isAccepting input p.final
          · rw [if_pos haccepting]
            exact answers_accepting h hpop haccepting
          · rw [if_neg haccepting]
            exact answers_failure (by decide) (fun _ => ⟨rfl, rfl⟩) (fun h => by cases h)
  | succ left ih =>
      unfold resumeCounted
      cases hpop : s.pending.pop? with
      | none => exact answers_exhausted h hpop
      | some r =>
          obtain ⟨p, rest⟩ := r
          simp only [Cancellation.raisedAt_never, Bool.false_eq_true, if_false]
          by_cases haccepting : a.isAccepting input p.final
          · rw [if_pos haccepting]
            exact answers_accepting h hpop haccepting
          · rw [if_neg haccepting]
            have hnext := ih (expanded + 1) (taken ++ [p]) _
              (h.take hpop (Bool.not_eq_true _ ▸ haccepting))
            rw [show expanded + (left + 1) = expanded + 1 + left by omega]
            exact hnext

end Search

namespace Automaton

/-- The search for a shortest accepting run, with the number of configurations it
expanded. -/
def runSearchCounted (a : Automaton) (input : Text) (budget : Budget) (cancel : Cancellation) :
    Run Step × Nat :=
  Search.resumeCounted a input (stepLimit budget) cancel (nodeLimit budget) 0 (.initial a)

theorem fst_runSearchCounted (a : Automaton) (input : Text) (budget : Budget)
    (cancel : Cancellation) :
    (a.runSearchCounted input budget cancel).1 = a.runSearch input budget cancel :=
  Search.fst_resumeCounted a input _ cancel _ 0 _

/-- **The search** is sound, complete within its limits and shortest: what it accepts is
recorded as an accepting run within the step limit that no other undercuts; it misses an
accepting run within the step limit only if the node limit is spent; and it rejects only
if there is no accepting run at all. -/
theorem runIn_search_shortest (a : Automaton) (input : Text) (budget : Budget) :
    let r := (a.runIn .search input budget .never).run
    (r.outcome = .accepted → ∃ moves c, a.Runs input a.initial moves c ∧
      a.isAccepting input c ∧ r.steps = recordRun input (some true) 0 a.initial none moves ∧
      moves.length ≤ stepLimit budget ∧ ∀ n, a.AcceptsWithin input n → moves.length ≤ n) ∧
    (a.AcceptsWithin input (stepLimit budget) → r.outcome = .accepted ∨
      r.outcome = .budgetExhausted ∧
        (a.runSearchCounted input budget .never).2 = nodeLimit budget) ∧
    (r.outcome = .rejected → ∀ n, ¬ a.AcceptsWithin input n) := by
  have hinv := Search.invariant_initial a input (stepLimit budget)
  have h := Search.answers_resumeCounted (nodeLimit budget) 0 [] (.initial a) hinv
  change Search.Answers a input _ _ (a.runSearchCounted input budget .never) at h
  intro r
  have hr : r = (a.runSearchCounted input budget .never).1 :=
    (fst_runSearchCounted a input budget .never).symm
  rw [hr]
  refine ⟨?_, ?_, h.rejected⟩
  · intro haccepted
    obtain ⟨p, hrun, haccepting, htrace, hlimit, hshortest⟩ := h.accepted haccepted
    refine ⟨p.moves, p.final, hrun.runs, haccepting, ?_, ?_, ?_⟩
    · rw [Run.steps, htrace]
      exact hrun.toList_trace true
    · rw [Path.length_moves]
      exact hlimit
    · intro n hn
      rw [Path.length_moves]
      exact hshortest n hn
  · intro hwithin
    have hfound := h.found hwithin
    rw [Nat.zero_add] at hfound
    exact hfound

end Automaton

end FormalMachines.Pushdown
