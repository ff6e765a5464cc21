import FormalMachines.Pushdown.Reach
import FormalMachines.Pushdown.Search

/-!
# FormalMachines.Proofs.Pushdown.Record

Runs as they are recorded.

`recordRun` writes down a sequence of moves step by step.  A path that a search builds is
the run of its moves (`Path.IsRun.runs`), and its trace is the record of that run
(`Path.IsRun.toList_trace`).
-/

namespace FormalMachines.Pushdown

/-- The records of moves fired one after the other, the last of which carries the
verdict: the number of the first step, the configuration there and the move that led to
it. -/
def recordRun (input : Text) (verdict : Option Bool) :
    Nat → Configuration → Option Transition → List Transition → List Step
  | n, c, via, [] => [c.record input n via verdict]
  | n, c, via, t :: moves =>
    c.record input n via none :: recordRun input verdict (n + 1) (c.fire t) (some t) moves

theorem recordRun_concat (input : Text) (verdict : Option Bool) (n : Nat) (c : Configuration)
    (via : Option Transition) (moves : List Transition) (t : Transition) :
    recordRun input verdict n c via (moves ++ [t]) =
      recordRun input none n c via moves ++
        [((moves.foldl Configuration.fire c).fire t).record input (n + moves.length + 1) (some t)
          verdict] := by
  induction moves generalizing n c via with
  | nil => rfl
  | cons u moves ih =>
      simp only [List.cons_append, recordRun, ih, List.foldl_cons, List.length_cons]
      rw [show n + 1 + moves.length + 1 = n + (moves.length + 1) + 1 by omega]

/-- The first step of a record is that of the configuration where it starts. -/
theorem exists_recordRun_eq_cons (input : Text) (verdict : Option Bool) (n : Nat)
    (c : Configuration) (via : Option Transition) (moves : List Transition) :
    ∃ verdict' rest, recordRun input verdict n c via moves =
      c.record input n via verdict' :: rest := by
  cases moves with
  | nil => exact ⟨verdict, [], rfl⟩
  | cons t moves => exact ⟨none, _, rfl⟩

/-- A step of a record is where the moves before it lead. -/
theorem of_getElem?_recordRun {input : Text} {verdict : Option Bool} {n k : Nat}
    {c : Configuration} {via : Option Transition} {moves : List Transition} {s : Step}
    (h : (recordRun input verdict n c via moves)[k]? = some s) :
    k ≤ moves.length ∧ s.stack = ((moves.take k).foldl Configuration.fire c).stack := by
  induction moves generalizing n c via k with
  | nil =>
      cases k with
      | zero => simp_all [recordRun, Configuration.record, eq_comm]
      | succ k => simp [recordRun] at h
  | cons t moves ih =>
      cases k with
      | zero => simp_all [recordRun, Configuration.record, eq_comm]
      | succ k =>
          obtain ⟨hk, hstack⟩ := ih (k := k) (by simpa [recordRun] using h)
          exact ⟨Nat.succ_le_succ hk, hstack⟩

namespace Automaton

variable {a : Automaton} {input : Text} {c : Configuration}

theorem reaches_zero_iff : a.Reaches input 0 c ↔ c = a.initial := by
  constructor
  · intro ⟨moves, hruns, hlen⟩
    rw [List.eq_nil_of_length_eq_zero hlen] at hruns
    exact (runs_nil_iff.1 hruns).symm
  · intro h
    exact ⟨[], runs_nil_iff.2 h.symm, rfl⟩

/-- A run of one move more goes through the configuration before the last move. -/
theorem reaches_succ_iff {n : Nat} : a.Reaches input (n + 1) c ↔
    ∃ e, a.Reaches input n e ∧ ∃ t ∈ a.transitions, e.allows input t ∧ c = e.fire t := by
  constructor
  · intro ⟨moves, hruns, hlen⟩
    obtain hnil | ⟨front, t, hmoves⟩ := List.eq_nil_or_concat moves
    · simp [hnil] at hlen
    · rw [hmoves, List.concat_eq_append] at hruns hlen
      obtain ⟨e, hfront, hlast⟩ := runs_append_iff.1 hruns
      obtain ⟨hmem, hallows, hnil⟩ := runs_cons_iff.1 hlast
      refine ⟨e, ⟨front, hfront, by simpa using hlen⟩, t, hmem, hallows, ?_⟩
      exact (runs_nil_iff.1 hnil).symm
  · intro ⟨e, ⟨front, hfront, hlen⟩, t, hmem, hallows, hc⟩
    refine ⟨front ++ [t], runs_append_iff.2 ⟨e, hfront, ?_⟩, by simp [hlen]⟩
    exact runs_cons_iff.2 ⟨hmem, hallows, runs_nil_iff.2 hc.symm⟩

/-- Moves of a run that follow one another are a run. -/
theorem runs_between {d : Configuration} {moves : List Transition} (h : a.Runs input c moves d)
    {i j : Nat} (hij : i ≤ j) :
    a.Runs input ((moves.take i).foldl Configuration.fire c) ((moves.take j).drop i)
      ((moves.take j).foldl Configuration.fire c) := by
  rw [← List.take_append_drop j moves, runs_append_iff] at h
  obtain ⟨e, hfront, -⟩ := h
  rw [← eq_of_runs hfront]
  rw [← List.take_append_drop i (moves.take j), runs_append_iff] at hfront
  obtain ⟨e', hbefore, hbetween⟩ := hfront
  rw [List.take_take, Nat.min_eq_left hij] at hbefore
  rwa [← eq_of_runs hbefore]

end Automaton

/-! ## Paths -/

namespace Path

/-- The moves of a path in order. -/
def moves : Path → List Transition
  | .start _ => []
  | .move before t _ => before.moves ++ [t]

/-- Whether a path is a run from the start of an automaton. -/
def IsRun (a : Automaton) (input : Text) : Path → Prop
  | .start c => c = a.initial
  | .move before t c =>
    before.IsRun a input ∧ t ∈ a.transitions ∧ before.final.allows input t ∧
      c = before.final.fire t

@[simp] theorem final_extend (p : Path) (t : Transition) :
    (p.extend t).final = p.final.fire t := rfl

@[simp] theorem length_extend (p : Path) (t : Transition) :
    (p.extend t).length = p.length + 1 := rfl

variable {a : Automaton} {input : Text} {p q : Path}

@[simp] theorem length_moves : p.moves.length = p.length := by
  induction p with
  | start => rfl
  | move before t c ih => simp [moves, length, ih]

theorem mem_successors_iff : q ∈ p.successors a input ↔
    ∃ t, (t ∈ a.transitions ∧ p.final.allows input t) ∧ p.extend t = q := by
  simp [successors]

theorem IsRun.successor (h : p.IsRun a input) (hq : q ∈ p.successors a input) :
    q.IsRun a input ∧ q.length = p.length + 1 := by
  obtain ⟨t, ⟨hmem, hallows⟩, rfl⟩ := mem_successors_iff.1 hq
  exact ⟨⟨h, hmem, hallows, rfl⟩, rfl⟩

theorem IsRun.runs (h : p.IsRun a input) : a.Runs input a.initial p.moves p.final := by
  induction p with
  | start c => exact Automaton.runs_nil_iff.2 h.symm
  | move before t c ih =>
      obtain ⟨hbefore, hmem, hallows, hc⟩ := h
      refine Automaton.runs_append_iff.2 ⟨before.final, ih hbefore, ?_⟩
      exact Automaton.runs_cons_iff.2 ⟨hmem, hallows, Automaton.runs_nil_iff.2 hc.symm⟩

theorem IsRun.toList_recordBefore (h : p.IsRun a input) (rest : Trace Step) :
    (p.recordBefore input rest).toList =
      recordRun input none 0 a.initial none p.moves ++ rest.toList := by
  induction p generalizing rest with
  | start c =>
      rw [show c = a.initial from h]
      rfl
  | move before t c ih =>
      obtain ⟨hbefore, _, _, hc⟩ := h
      rw [recordBefore, ih hbefore, moves, recordRun_concat,
        ← Automaton.eq_of_runs hbefore.runs, ← hc, length_moves, Nat.zero_add,
        List.append_assoc]
      rfl

/-- **The trace of a path** is the record of its moves. -/
theorem IsRun.toList_trace (h : p.IsRun a input) (verdict : Bool) :
    (p.trace input verdict).toList =
      recordRun input (some verdict) 0 a.initial none p.moves := by
  cases p with
  | start c =>
      rw [show c = a.initial from h]
      rfl
  | move before t c =>
      obtain ⟨hbefore, _, _, hc⟩ := h
      rw [trace, hbefore.toList_recordBefore, moves, recordRun_concat,
        ← Automaton.eq_of_runs hbefore.runs, ← hc, length_moves, Nat.zero_add]
      rfl

end Path

end FormalMachines.Pushdown
