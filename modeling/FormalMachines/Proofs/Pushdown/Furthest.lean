import FormalMachines.Proofs.Pushdown.Definitive
import Mathlib.Data.List.Nodup

/-!
# FormalMachines.Proofs.Pushdown.Furthest

What a search that rejects shows.

Besides its `Invariant`, a search keeps two facts of the paths found (`Search.Notes`):

1. they end in configurations of their own (`Search.Apart`);
2. the path that it notes is one of them, and no path taken consumed more input.

A search that rejects has nothing left to take and has cut nothing off.  So it took a path to
each configuration that can be reached, no longer than any other, and there is only one path
that it took there.  The noted path, which it records, is such a path (`Path.IsFurthest`).
-/

namespace FormalMachines.Pushdown

/-- Whether a path is a shortest run to where it ends, and nothing that can be reached has
consumed more input. -/
structure Path.IsFurthest (a : Automaton) (input : Text) (p : Path) : Prop where
  isRun : p.IsRun a input
  shortest : ∀ n, a.Reaches input n p.final → p.length ≤ n
  most : ∀ n c, a.Reaches input n c → c.position ≤ p.final.position

namespace Search

variable {a : Automaton} {input : Text} {limit : Nat} {taken : List Path} {s : Search}
  {p : Path} {rest : Queue}

/-! ## One path to each configuration -/

/-- Whether the paths found end in configurations of their own, all of which were met. -/
structure Apart (taken : List Path) (s : Search) : Prop where
  nodup : ((taken ++ s.pending.toList).map (·.final)).Nodup
  met : ∀ p ∈ taken ++ s.pending.toList, p.final ∈ s.seen

theorem apart_initial (a : Automaton) : Apart [] (.initial a) := by
  constructor
  · simp [initial, Queue.toList]
  · simp [initial, Queue.toList, Path.final]

theorem Apart.discover (h : Apart taken s) (p : Path) : Apart taken (s.discover p) := by
  by_cases hseen : p.final ∈ s.seen
  · rwa [discover_of_mem hseen]
  · have hnew : p.final ∉ (taken ++ s.pending.toList).map (·.final) := by
      intro hmem
      obtain ⟨q, hq, hfinal⟩ := List.mem_map.1 hmem
      exact hseen (hfinal ▸ h.met q hq)
    rw [discover_of_not_mem hseen]
    constructor
    · rw [Queue.toList_push, ← List.append_assoc, List.map_append]
      exact h.nodup.append (List.nodup_singleton _) (by simpa using hnew)
    · intro q hq
      rw [Queue.toList_push, ← List.append_assoc, List.mem_append, List.mem_singleton] at hq
      obtain hq | rfl := hq
      · simp [h.met q hq]
      · simp

theorem Apart.foldl_discover (h : Apart taken s) (paths : List Path) :
    Apart taken (paths.foldl Search.discover s) := by
  induction paths generalizing s with
  | nil => exact h
  | cons p paths ih => exact ih (h.discover p)

theorem Apart.expand (h : Apart taken s) (a : Automaton) (input : Text) (limit : Nat) (p : Path) :
    Apart taken (s.expand a input limit p) := by
  by_cases hlt : p.length < limit
  · rw [expand_of_lt hlt]
    exact h.foldl_discover _
  · rw [expand_of_le (Nat.not_lt.1 hlt)]
    split
    · exact h
    · exact ⟨h.nodup, h.met⟩

/-- Two of the paths found that end in the same configuration are the same path. -/
theorem Apart.eq_of_final_eq (h : Apart taken s) {q : Path}
    (hp : p ∈ taken ++ s.pending.toList) (hq : q ∈ taken ++ s.pending.toList)
    (hfinal : p.final = q.final) : p = q :=
  List.inj_on_of_nodup_map h.nodup hp hq hfinal

/-! ## The path that is noted -/

/-- What a search keeps of the paths found and of the one that it notes. -/
structure Notes (taken : List Path) (s : Search) : Prop where
  apart : Apart taken s
  found : s.furthest ∈ taken ++ s.pending.toList
  most : ∀ p ∈ taken, p.final.position ≤ s.furthest.final.position

theorem notes_initial (a : Automaton) : Notes [] (.initial a) where
  apart := apart_initial a
  found := List.mem_singleton_self _
  most := by simp

/-- Taking the first path, and noting it if it consumed more input than any before. -/
theorem Notes.note (h : Notes taken s) (hpop : s.pending.pop? = some (p, rest)) :
    Notes (taken ++ [p]) (noteFurthest p { s with pending := rest }) := by
  have hfound : taken ++ [p] ++ rest.toList = taken ++ s.pending.toList := by
    simp [Queue.toList_of_pop? hpop]
  refine ⟨⟨?_, ?_⟩, ?_, ?_⟩
  · rw [pending_noteFurthest, hfound]
    exact h.apart.nodup
  · rw [pending_noteFurthest, seen_noteFurthest, hfound]
    exact h.apart.met
  · rw [pending_noteFurthest, furthest_noteFurthest, hfound]
    split
    · simp [Queue.toList_of_pop? hpop]
    · exact h.found
  · intro q hq
    simp only [furthest_noteFurthest]
    obtain hq | hq := List.mem_append.1 hq
    · have hmost := h.most q hq
      split <;> omega
    · rw [List.mem_singleton.1 hq]
      split <;> omega

theorem Notes.expand (h : Notes taken s) (a : Automaton) (input : Text) (limit : Nat) (p : Path) :
    Notes taken (s.expand a input limit p) := by
  obtain ⟨fresh, hexpands⟩ := expands_expand a input limit p s
  refine ⟨h.apart.expand a input limit p, ?_, ?_⟩
  · rw [furthest_expand, hexpands.pending, ← List.append_assoc]
    exact List.mem_append_left fresh h.found
  · rw [furthest_expand]
    exact h.most

/-! ## A search that rejects -/

/-- A search that has nothing left to take and has cut nothing off took a path to each
configuration that can be reached, no longer than any other. -/
theorem Invariant.exists_taken (h : Invariant a input limit taken s)
    (hpop : s.pending.pop? = none) (huncut : s.truncated = false) {n : Nat} {c : Configuration}
    (hc : a.Reaches input n c) : ∃ p ∈ taken, p.final = c ∧ p.length ≤ n := by
  have hlist : s.pending.toList = [] := Queue.toList_of_pop?_eq_none hpop
  obtain ⟨p, hp, hfinal, hlen⟩ | ⟨p, hp, _⟩ := h.found_or_pending (.inr huncut) hc
  · rw [hlist, List.append_nil] at hp
    exact ⟨p, hp, hfinal, hlen⟩
  · rw [hlist] at hp
    exact absurd hp List.not_mem_nil

/-- **The path that is noted** by the end of such a search. -/
theorem Notes.isFurthest (hnotes : Notes taken s) (h : Invariant a input limit taken s)
    (hpop : s.pending.pop? = none) (huncut : s.truncated = false) :
    s.furthest.IsFurthest a input := by
  refine ⟨(h.runs _ hnotes.found).1, fun n hn => ?_, fun n c hc => ?_⟩
  · obtain ⟨p, hp, hfinal, hlen⟩ := h.exists_taken hpop huncut hn
    rwa [hnotes.apart.eq_of_final_eq (List.mem_append_left _ hp) hnotes.found hfinal] at hlen
  · obtain ⟨p, hp, hfinal, _⟩ := h.exists_taken hpop huncut hc
    exact hfinal ▸ hnotes.most p hp

/-- **A search that rejects**, from wherever it stands, records a path that is furthest. -/
theorem exists_isFurthest {left expanded : Nat} (h : Invariant a input limit taken s)
    (hnotes : Notes taken s)
    (hrejected : (resume a input limit .never left expanded s).outcome = .rejected) :
    ∃ p : Path, p.IsFurthest a input ∧
      (resume a input limit .never left expanded s).trace = p.trace input false := by
  fun_induction resume a input limit .never left expanded s generalizing taken with
  | case1 left expanded s hpop =>
      have huncut : s.truncated = false := by
        cases htruncated : s.truncated <;> simp_all [failure]
      exact ⟨s.furthest, hnotes.isFurthest h hpop huncut, rfl⟩
  | case2 left expanded s p rest hpop hraised => cases hraised
  | case3 left expanded s p rest hpop hraised haccepting => cases hrejected
  | case4 expanded s p rest hpop hraised hrefused => cases hrejected
  | case5 expanded s p rest hpop hraised hrefused _ more =>
      rename_i ih
      have hrefused : a.isAccepting input p.final = false := by simpa using hrefused
      exact ih (h.take hpop hrefused) ((hnotes.note hpop).expand a input limit p) hrejected

end Search

namespace Automaton

/-- **A search that rejects** shows the furthest configuration: its record is a run from the
start, no other run to the same configuration has fewer moves, and no run at all, of whatever
length, leads to a configuration that has consumed more of the input. -/
theorem runIn_search_furthest (a : Automaton) (input : Text) {budget : Budget}
    (h : (a.runIn .search input budget .never).run.outcome = .rejected) :
    ∃ moves c, a.Runs input a.initial moves c ∧
      (a.runIn .search input budget .never).run.steps =
        recordRun input (some false) 0 a.initial none moves ∧
      (∀ n, a.Reaches input n c → moves.length ≤ n) ∧
      ∀ n d, a.Reaches input n d → d.position ≤ c.position := by
  obtain ⟨p, hfurthest, htrace⟩ := Search.exists_isFurthest
    (Search.invariant_initial a input (stepLimit budget)) (Search.notes_initial a) h
  refine ⟨p.moves, p.final, hfurthest.isRun.runs, ?_, ?_, hfurthest.most⟩
  · exact (congrArg Trace.toList htrace).trans (hfurthest.isRun.toList_trace false)
  · rw [Path.length_moves]
    exact hfurthest.shortest

/-- An automaton that can leave without reading before it can read. -/
def sideExit : Automaton where
  states := [.text "p", .text "q", .text "r"]
  inputAlphabet := [.text "a"]
  stackAlphabet := [.text "Y", .text "Z"]
  transitions := [⟨"p", epsilon, "Z", "q", []⟩, ⟨"p", "a", epsilon, "r", ["Y"]⟩]
  start := "p"
  initialSymbol := "Z"
  accepting := [.text "r"]

/-- With three nodes the search comes to its end, and the input goes on. -/
theorem outcome_runIn_sideExit :
    (sideExit.runIn .search "ab" { steps := some 2, nodes := some 3 } .never).run.outcome =
      .rejected := by
  let p : Path := .start sideExit.initial
  let q : Path := p.extend ⟨"p", epsilon, "Z", "q", []⟩
  let r : Path := p.extend ⟨"p", "a", epsilon, "r", ["Y"]⟩
  let s : Search := ⟨⟨[], []⟩, (Search.initial sideExit).seen, p, false⟩
  have hq : q.final ∉ s.seen := by
    have hne : sideExit.initial ≠ q.final := by decide +kernel
    simp [s, Search.initial, hne]
  have hr : r.final ∉ (s.discover q).seen := by
    have hne : sideExit.initial ≠ r.final ∧ q.final ≠ r.final := by decide +kernel
    rw [Search.discover_of_not_mem hq]
    simp [s, Search.initial, hne]
  have hexpand : s.expand sideExit "ab" 2 p = (s.discover q).discover r := by
    rw [Search.expand_of_lt (by decide)]
    rfl
  have hstuck : ∀ s' : Search,
      s'.expand sideExit "ab" 2 q = s' ∧ s'.expand sideExit "ab" 2 r = s' :=
    fun _ => ⟨rfl, rfl⟩
  have hrefused : ∀ u ∈ [p, q, r], sideExit.isAccepting "ab" u.final = false := by decide +kernel
  change (Search.resume sideExit "ab" 2 .never 3 0 (.initial sideExit)).outcome = .rejected
  rw [Search.resume_succ (p := p) rfl (hrefused p (by simp))]
  change (Search.resume sideExit "ab" 2 .never 2 1 (s.expand sideExit "ab" 2 p)).outcome = _
  rw [hexpand, Search.discover_of_not_mem hr, Search.discover_of_not_mem hq,
    Search.resume_succ (p := q) rfl (hrefused q (by simp)), (hstuck _).1,
    Search.resume_succ (p := r) rfl (hrefused r (by simp)), (hstuck _).2,
    Search.resume_of_none rfl]
  rfl

theorem runIn_search_furthest_sideExit :
    let r := (sideExit.runIn .search "ab" { steps := some 2, nodes := some 3 } .never).run
    sideExit.Valid ∧ r.outcome = .rejected ∧
      ∃ moves c, sideExit.Runs "ab" sideExit.initial moves c ∧
        r.steps = recordRun "ab" (some false) 0 sideExit.initial none moves ∧
        (∀ n, sideExit.Reaches "ab" n c → moves.length ≤ n) ∧
        ∀ n d, sideExit.Reaches "ab" n d → d.position ≤ c.position :=
  ⟨by decide +kernel, outcome_runIn_sideExit,
    sideExit.runIn_search_furthest "ab" outcome_runIn_sideExit⟩

end Automaton

end FormalMachines.Pushdown
