import FormalMachines.Json.Basic

/-!
# FormalMachines.Run.Outcome

How a run ends, and the record of a run: its steps, of which there is at least one, whether
it accepts, and its outcome.  Each end of a run sets the last two by itself; that they always
agree (`Run.Agrees`) is proved of each kind of run.
-/

namespace FormalMachines

/-- How a run ends. -/
inductive Outcome where
  | accepted | rejected | budgetExhausted | cancelled
  deriving DecidableEq, Repr

namespace Outcome

def name : Outcome → Text
  | .accepted => "accepted"
  | .rejected => "rejected"
  | .budgetExhausted => "budget_exhausted"
  | .cancelled => "cancelled"

/-- The outcome that a verdict gives. -/
def ofVerdict (accepted : Bool) : Outcome := if accepted then .accepted else .rejected

theorem ofVerdict_eq_accepted_iff {b : Bool} : ofVerdict b = .accepted ↔ b = true := by
  cases b <;> decide

end Outcome

/-- A sequence of steps with a last one. -/
inductive Trace (σ : Type) where
  | last (step : σ)
  | next (step : σ) (rest : Trace σ)
  deriving DecidableEq, Repr

namespace Trace

variable {σ τ : Type}

def toList : Trace σ → List σ
  | .last s => [s]
  | .next s rest => s :: rest.toList

/-- The last step. -/
def final : Trace σ → σ
  | .last s => s
  | .next _ rest => rest.final

/-- The trace of a first step and those that follow it. -/
def ofList (first : σ) : List σ → Trace σ
  | [] => .last first
  | s :: rest => .next first (ofList s rest)

/-- Changes the last step. -/
def modifyFinal (f : σ → σ) : Trace σ → Trace σ
  | .last s => .last (f s)
  | .next s rest => .next s (rest.modifyFinal f)

def map (f : σ → τ) : Trace σ → Trace τ
  | .last s => .last (f s)
  | .next s rest => .next (f s) (rest.map f)

@[simp] theorem toList_ofList (first : σ) (rest : List σ) :
    (ofList first rest).toList = first :: rest := by
  induction rest generalizing first with
  | nil => rfl
  | cons s rest ih => simp [ofList, toList, ih]

theorem toList_ne_nil (t : Trace σ) : t.toList ≠ [] := by
  cases t <;> simp [toList]

theorem getLast_toList (t : Trace σ) : t.toList.getLast t.toList_ne_nil = t.final := by
  induction t with
  | last => rfl
  | next s rest ih => simpa [toList, final, List.getLast_cons rest.toList_ne_nil] using ih

@[simp] theorem toList_map (f : σ → τ) (t : Trace σ) : (t.map f).toList = t.toList.map f := by
  induction t with
  | last => rfl
  | next s rest ih => simp [map, toList, ih]

end Trace

/-- The record of a run. -/
structure Run (σ : Type) where
  trace : Trace σ
  accepts : Bool
  outcome : Outcome
  deriving DecidableEq, Repr

namespace Run

variable {σ : Type}

/-- A run that ends at its first step. -/
def stop (step : σ) (accepts : Bool) (outcome : Outcome) : Run σ :=
  ⟨.last step, accepts, outcome⟩

/-- A run with one step more in front. -/
def cons (step : σ) (rest : Run σ) : Run σ :=
  ⟨.next step rest.trace, rest.accepts, rest.outcome⟩

/-- The steps of a run in order. -/
def steps (r : Run σ) : List σ := r.trace.toList

/-- Whether a run accepts exactly if its outcome says so. -/
def Agrees (r : Run σ) : Prop := r.accepts ↔ r.outcome = .accepted

theorem agrees_stop_false (step : σ) {outcome : Outcome} (h : outcome ≠ .accepted) :
    (stop step false outcome).Agrees :=
  iff_of_false Bool.false_ne_true h

theorem agrees_stop_ofVerdict (step : σ) (verdict : Bool) :
    (stop step verdict (.ofVerdict verdict)).Agrees :=
  Outcome.ofVerdict_eq_accepted_iff.symm

/-- Runs with the same outcome accept alike. -/
theorem Agrees.accepts_congr {τ : Type} {r : Run σ} {r' : Run τ} (h : r.Agrees) (h' : r'.Agrees)
    (houtcome : r'.outcome = r.outcome) : r'.accepts = r.accepts := by
  have hiff : r'.outcome = .accepted ↔ r.outcome = .accepted := by rw [houtcome]
  exact Bool.eq_iff_iff.2 (h'.trans (hiff.trans h.symm))

theorem Agrees.cons {rest : Run σ} (h : rest.Agrees) (step : σ) : (rest.cons step).Agrees := h

end Run

end FormalMachines
