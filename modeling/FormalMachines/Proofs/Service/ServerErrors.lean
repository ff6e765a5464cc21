import FormalMachines.Proofs.Builders
import FormalMachines.Proofs.Safety
import FormalMachines.Proofs.Service.Ceilings

/-!
# FormalMachines.Proofs.Service.ServerErrors

When a request ends in an error of the server.

A response is an error of the server where a fault is not put in words.  The parameters of a
request are always reported, its limits too under the settings of a service that is given none
(`not_fails_requestBudget`).  What is left are the faults that no builder reports
(`fails_ofJson_iff`), those of the constructions on finite automata whose alphabet holds a list
or an object, and sums out of range in the search for a derivation.
`status_eq_serverError_iff` tells exactly for which requests they come up.
-/

namespace FormalMachines

/-! ## Faults that are not put in words -/

/-- Whether a fault is not put in words. -/
def Fault.Silent (e : Fault) : Prop := e.message? = none

theorem unreported_silent : Unreported Fault.Silent where
  value _ := rfl
  definition _ := Option.some_ne_none _

theorem not_fails_parameter {α : Type} (e : ParameterError) :
    ¬ Fails Fault.Silent (.error (.parameter e) : Except Fault α) := by
  rw [fails_error_iff]
  exact Option.some_ne_none _

/-- A fault that is not of the definition. -/
def Fault.OutsideDefinition (e : Fault) : Prop := ∀ d, e ≠ .definition d

theorem unreported_outsideDefinition : Unreported Fault.OutsideDefinition where
  value _ := fun _ h => Fault.noConfusion h
  definition d := fun h => h d rfl

/-! ## Finite automata -/

namespace Finite

theorem not_fails_ofJson_epsilonMode (mode : Json) :
    ¬ Fails Fault.Silent (EpsilonMode.ofJson mode) := by
  unfold EpsilonMode.ofJson
  split
  · exact not_fails_ok _
  · split
    · exact not_fails_ok _
    · exact not_fails_parameter _

namespace Automaton

variable (a : Automaton)

theorem not_fails_simulate (mode epsilonMode : Json) (input : Text) :
    ¬ Fails Fault.Silent (a.simulate mode epsilonMode input .never) := by
  refine not_fails_bind ?_ fun m => ?_
  · unfold chooseMode
    split
    · exact not_fails_ok _
    · dsimp only
      split
      · exact not_fails_ok _
      · split
        · exact not_fails_ok _
        · exact not_fails_parameter _
    · exact not_fails_parameter _
  · cases m with
    | dfa => exact not_fails_ok _
    | nfa =>
        exact not_fails_bind (not_fails_ofJson_epsilonMode epsilonMode) fun _ => not_fails_ok _

theorem fails_letters_iff (mode : EpsilonMode) :
    Fails Fault.Silent (a.letters mode) ↔ ∃ v ∈ a.alphabet, v.IsCompound := by
  rw [← unreported_silent.fails_mapM_requireAtom_iff]
  exact fails_bind_iff_left fun _ => not_fails_ok _

/-- **The subset construction** fails in silence at an alphabet with a list or an object. -/
theorem fails_determinise_iff (epsilonMode : Json) (addDead : Bool) :
    Fails Fault.Silent (a.determinise epsilonMode addDead) ↔
      (∃ mode, EpsilonMode.ofJson epsilonMode = .ok mode) ∧ ∃ v ∈ a.alphabet, v.IsCompound := by
  refine (fails_bind_iff_right (not_fails_ofJson_epsilonMode epsilonMode)).trans ?_
  rw [← exists_and_right]
  refine exists_congr fun mode => and_congr_right' ?_
  rw [← a.fails_letters_iff mode]
  exact fails_bind_iff_left fun letters => not_fails_validate unreported_silent _

/-- **Minimisation** does so too, of a deterministic automaton. -/
theorem fails_minimise_iff : Fails Fault.Silent a.minimise ↔
    a.isDeterministic ∧ ∃ v ∈ a.alphabet, v.IsCompound := by
  rw [← a.fails_letters_iff .literal]
  cases hdet : a.isDeterministic with
  | false =>
      rw [minimise, hdet]
      exact iff_of_false (not_fails_parameter _) (by simp)
  | true =>
      rw [minimise, hdet]
      refine Iff.trans ?_ (and_iff_right rfl).symm
      exact fails_bind_iff_left fun letters => not_fails_validate unreported_silent _

/-- Whether the alphabet holds a list or an object, and each symbol before the first such is
`ε` or has a move from a state. -/
def MeetsCompound (state : Text) : Prop :=
  ∃ front v back, a.alphabet = front ++ v :: back ∧ v.IsCompound ∧
    ∀ u ∈ front, u.isText epsilon ∨ ∃ s, u = .atom s ∧ a.hasMove state s

theorem fails_checkMove_iff (state : Text) (v : Json) :
    Fails Fault.Silent (a.checkMove state v) ↔ v.IsCompound := by
  cases v with
  | atom s =>
      refine iff_of_false ?_ (Json.not_isCompound_iff.2 ⟨s, rfl⟩)
      unfold checkMove
      split
      · exact not_fails_ok _
      · exact not_fails_ok _
  | list | object => exact iff_of_true (fails_error_iff.2 rfl) rfl

/-- **The check that every state has all moves** fails in silence where it comes upon a list or
an object, which is at its first state or not at all. -/
theorem fails_isComplete_iff : Fails Fault.Silent a.isComplete ↔
    ∃ state rest, a.names = state :: rest ∧ a.MeetsCompound state := by
  have hstate : ∀ state, Fails Fault.Silent (a.alphabet.allM (a.checkMove state)) ↔
      a.MeetsCompound state := by
    intro state
    rw [fails_allM_iff]
    simp only [fails_checkMove_iff, checkMove_eq_true_iff]
    rfl
  have hcomplete : a.isComplete = a.names.allM fun state => a.alphabet.allM (a.checkMove state) :=
    rfl
  rw [hcomplete, fails_allM_iff]
  constructor
  · rintro ⟨front, state, rest, hnames, hfails, hfront⟩
    cases front with
    | nil => exact ⟨state, rest, hnames, (hstate state).1 hfails⟩
    | cons first front =>
        -- a state that has all moves has seen the whole alphabet
        have hpassed := allM_eq_true_iff.1 (hfront first List.mem_cons_self)
        obtain ⟨before, v, after, halphabet, hv, _⟩ := (hstate state).1 hfails
        have hmem : v ∈ a.alphabet := by rw [halphabet]; simp
        have hvfails := (a.fails_checkMove_iff first v).2 hv
        rw [hpassed v hmem] at hvfails
        exact absurd hvfails (not_fails_ok true)
  · intro ⟨state, rest, hnames, hmeets⟩
    exact ⟨[], state, rest, hnames, (hstate state).2 hmeets, by simp⟩

end Automaton

end Finite

namespace Service

/-! ## Limits -/

/-- A table of limits holds a natural number for each limit that it has. -/
theorem ceilingIn?_limits (entries : List (Limit × Nat)) (limit : Limit) :
    ∃ ceiling : Option Nat, ceilingIn? (limits entries) limit = .ok (ceiling.map Json.nat) := by
  induction entries with
  | nil => exact ⟨none, rfl⟩
  | cons e entries ih =>
      obtain ⟨ceiling, hceiling⟩ := ih
      by_cases he : limit.key = e.1.key
      · refine ⟨some e.2, ?_⟩
        show Except.ok (List.lookup limit.key ((e.1.key, Json.nat e.2) :: _)) = _
        rw [List.lookup_cons, he, beq_self_eq_true]
        rfl
      · refine ⟨ceiling, ?_⟩
        rw [← hceiling]
        show Except.ok (List.lookup limit.key ((e.1.key, Json.nat e.2) :: _)) = _
        rw [List.lookup_cons, beq_eq_false_iff_ne.2 he]
        rfl

theorem not_fails_limitValue (request : Json.Members) (defaults ceilings : List (Limit × Nat))
    (limit : Limit) :
    ¬ Fails Fault.Silent (limitValue request (limits defaults) (limits ceilings) limit) := by
  refine not_fails_bind (not_fails_ok _) fun default => ?_
  split
  · exact not_fails_ok _
  · obtain ⟨ceiling, hceiling⟩ := ceilingIn?_limits ceilings limit
    rw [hceiling]
    cases ceiling with
    | none => exact not_fails_ok _
    | some ceiling =>
        next n _ =>
        show ¬ Fails Fault.Silent (capped n (.nat ceiling))
        rw [capped_nat]
        exact not_fails_ok _
  · exact not_fails_parameter _

theorem not_fails_readLimit (limit : Limit) (v : Json) :
    ¬ Fails Fault.Silent (Budget.readLimit limit v) := by
  unfold Budget.readLimit
  split
  · exact not_fails_ok _
  · split
    · exact not_fails_ok _
    · exact not_fails_parameter _
  · exact not_fails_parameter _

/-- **The limits of a request** are reported, where the settings hold tables of limits. -/
theorem not_fails_requestBudget (kind : Kind) (request : Json.Members) :
    ¬ Fails Fault.Silent (requestBudget .standard kind request) := by
  have htables : ∃ defaults ceilings,
      tableOf Settings.standard.defaults kind = .ok (limits defaults) ∧
      tableOf Settings.standard.ceilings kind = .ok (limits ceilings) := by
    cases kind <;> exact ⟨_, _, rfl, rfl⟩
  obtain ⟨defaults, ceilings, hdefaults, hceilings⟩ := htables
  have hvalue := not_fails_limitValue request defaults ceilings
  rw [requestBudget, hdefaults, hceilings]
  change ¬ Fails Fault.Silent (limitValue request (limits defaults) (limits ceilings) .steps >>= _)
  refine not_fails_bind (hvalue .steps) fun steps => ?_
  refine not_fails_bind (hvalue .depth) fun depth => ?_
  refine not_fails_bind (hvalue .nodes) fun nodes => ?_
  refine not_fails_bind (not_fails_readLimit _ _) fun _ => ?_
  refine not_fails_bind (not_fails_readLimit _ _) fun _ => ?_
  exact not_fails_bind (not_fails_readLimit _ _) fun _ => not_fails_ok _

theorem not_fails_textIn (request : Json.Members) (key : Text) :
    ¬ Fails Fault.Silent (textIn request key) := by
  unfold textIn
  split
  · exact not_fails_ok _
  · exact not_fails_ok _
  · exact not_fails_parameter _

theorem not_fails_definitionIn (request : Json.Members) (what : Subject) :
    ¬ Fails Fault.Silent (definitionIn request what) := by
  unfold definitionIn
  dsimp only
  split
  · exact not_fails_ok _
  · exact not_fails_parameter _

theorem not_fails_simulatePushdown (a : Pushdown.Automaton) (mode : Json) (input : Text)
    (budget : Budget) : ¬ Fails Fault.Silent (a.simulate mode input budget .never) := by
  refine not_fails_bind ?_ fun _ => not_fails_ok _
  unfold Pushdown.Mode.ofJson
  split
  · exact not_fails_ok _
  · split
    · exact not_fails_ok _
    · exact not_fails_parameter _

/-! ## Endpoints -/

/-- Whether a request to an endpoint, with a definition, comes upon what nothing reports. -/
def Endpoint.Unforeseen (endpoint : Endpoint) (request : Json.Members) (definition : Json) : Prop :=
  match endpoint with
  | .simulateFinite => Finite.Unforeseen definition
  | .checkFinite => Finite.Unforeseen definition ∨
      ∃ a, Finite.Automaton.ofJson definition = .ok a ∧
        ∃ state rest, a.names = state :: rest ∧ a.MeetsCompound state
  | .determinise => Finite.Unforeseen definition ∨
      ∃ a, Finite.Automaton.ofJson definition = .ok a ∧
        (∃ mode, Finite.EpsilonMode.ofJson (epsilonModeIn request) = .ok mode) ∧
          ∃ v ∈ a.alphabet, v.IsCompound
  | .minimise => Finite.Unforeseen definition ∨
      ∃ a, Finite.Automaton.ofJson definition = .ok a ∧
        a.isDeterministic ∧ ∃ v ∈ a.alphabet, v.IsCompound
  | .simulatePushdown => Pushdown.Unforeseen definition
  | .simulateTuring => Turing.Unforeseen definition
  | .derive => ContextFree.Unforeseen definition ∨
      ∃ g, ContextFree.Grammar.ofJson definition = .ok g ∧
        ∃ target, textIn request "target" = .ok target ∧
          ∃ budget, requestBudget .standard .grammar request = .ok budget ∧
            ∃ n, ContextFree.Cost.range ≤ n ∧ n ≤ g.ceiling (ContextFree.depthLimit budget) ∧
              g.attempt target budget .never = .error (.value (.outOfRange n))

theorem fails_attempt_iff {g : ContextFree.Grammar} (hg : g.Valid) (target : Text)
    (budget : Budget) :
    Fails Fault.Silent (g.attempt target budget .never) ↔
      ∃ n, ContextFree.Cost.range ≤ n ∧ n ≤ g.ceiling (ContextFree.depthLimit budget) ∧
        g.attempt target budget .never = .error (.value (.outOfRange n)) := by
  constructor
  · intro hfails
    refine ((g.reckons_attempt hg target budget .never).eq_ok_or).resolve_left fun hok => ?_
    rw [hok] at hfails
    exact not_fails_ok _ hfails
  · intro ⟨n, _, _, herror⟩
    exact ⟨_, herror, rfl⟩

/-- What is done with a definition once it is read. -/
theorem fails_answer_iff (endpoint : Endpoint) (request : Json.Members) :
    Fails Fault.Silent (answer .standard endpoint request) ↔
      ∃ definition, definitionIn request endpoint.subject = .ok definition ∧
        endpoint.Unforeseen request definition := by
  refine (fails_bind_iff_right (not_fails_definitionIn _ _)).trans ?_
  refine exists_congr fun definition => and_congr_right' ?_
  cases endpoint with
  | simulateFinite =>
      refine Iff.trans (fails_bind_iff_left fun a => ?_) (Finite.fails_ofJson_iff unreported_silent)
      refine not_fails_bind (not_fails_textIn _ _) fun input => ?_
      exact not_fails_bind (a.not_fails_simulate _ _ input) fun _ => not_fails_ok _
  | checkFinite =>
      refine fails_bind_iff.trans (or_congr (Finite.fails_ofJson_iff unreported_silent) ?_)
      refine exists_congr fun a => and_congr_right' ?_
      rw [← a.fails_isComplete_iff]
      exact fails_bind_iff_left fun _ => not_fails_ok _
  | determinise =>
      refine fails_bind_iff.trans (or_congr (Finite.fails_ofJson_iff unreported_silent) ?_)
      refine exists_congr fun a => and_congr_right' ?_
      refine Iff.trans (fails_bind_iff_left fun _ => not_fails_ok _) ?_
      exact a.fails_determinise_iff _ _
  | minimise =>
      refine fails_bind_iff.trans (or_congr (Finite.fails_ofJson_iff unreported_silent) ?_)
      refine exists_congr fun a => and_congr_right' ?_
      exact (fails_bind_iff_left fun _ => not_fails_ok _).trans a.fails_minimise_iff
  | simulatePushdown =>
      refine Iff.trans (fails_bind_iff_left fun a => ?_)
        (Pushdown.fails_ofJson_iff unreported_silent)
      refine not_fails_bind (not_fails_textIn _ _) fun input => ?_
      refine not_fails_bind (not_fails_requestBudget _ _) fun budget => ?_
      exact not_fails_bind (not_fails_simulatePushdown a _ input budget) fun _ => not_fails_ok _
  | simulateTuring =>
      refine Iff.trans (fails_bind_iff_left fun m => ?_) (Turing.fails_ofJson_iff unreported_silent)
      refine not_fails_bind (not_fails_textIn _ _) fun input => ?_
      exact not_fails_bind (not_fails_requestBudget _ _) fun budget => not_fails_ok _
  | derive =>
      refine fails_bind_iff.trans (or_congr (ContextFree.fails_ofJson_iff unreported_silent) ?_)
      refine exists_congr fun g => and_congr_right fun hg => ?_
      refine (fails_bind_iff_right (not_fails_textIn _ _)).trans ?_
      refine exists_congr fun target => and_congr_right' ?_
      refine (fails_bind_iff_right (not_fails_requestBudget _ _)).trans ?_
      refine exists_congr fun budget => and_congr_right' ?_
      rw [← fails_attempt_iff (ContextFree.Grammar.valid_ofJson hg)]
      exact fails_bind_iff_left fun _ => not_fails_ok _

/-! ## Responses -/

namespace Response

/-- The status of a response. -/
def status : Response → Nat
  | .methodNotAllowed => 405
  | .malformedBody => 400
  | .badRequest _ => 400
  | .serverError => 500
  | .ok _ => 200

theorem status_ofOutcome_cases (outcome : Except Fault Json) :
    Fails Fault.Silent outcome ∧ (ofOutcome outcome).status = 500 ∨
      ¬ Fails Fault.Silent outcome ∧
        ((ofOutcome outcome).status = 200 ∨ (ofOutcome outcome).status = 400) := by
  cases outcome with
  | ok body => exact .inr ⟨not_fails_ok body, .inl rfl⟩
  | error fault =>
      rw [fails_error_iff]
      cases fault with
      | definition e => exact .inr ⟨Option.some_ne_none _, .inr rfl⟩
      | parameter e => exact .inr ⟨Option.some_ne_none _, .inr rfl⟩
      | value v => exact .inl ⟨rfl, rfl⟩

end Response

theorem status_answerValue_cases (endpoint : Endpoint) (value : Json) :
    let status := (Response.ofOutcome (answerValue .standard endpoint value)).status
    (status = 200 ∨ status = 400 ∨ status = 500) ∧
      (status = 500 ↔ ∃ request definition, value = .object request ∧
        definitionIn request endpoint.subject = .ok definition ∧
          endpoint.Unforeseen request definition) := by
  intro status
  have hfails : Fails Fault.Silent (answerValue .standard endpoint value) ↔
      ∃ request definition, value = .object request ∧
        definitionIn request endpoint.subject = .ok definition ∧
          endpoint.Unforeseen request definition := by
    cases value with
    | object members =>
        refine (fails_answer_iff endpoint members).trans ?_
        simp only [Json.object.injEq, exists_and_left, exists_eq_left']
    | atom | list =>
        refine iff_of_false (not_fails_parameter _) ?_
        intro ⟨request, definition, h, _⟩
        cases h
  rw [← hfails]
  obtain ⟨h, hstatus⟩ | ⟨h, hstatus⟩ :=
    Response.status_ofOutcome_cases (answerValue .standard endpoint value)
  · exact ⟨.inr (.inr hstatus), iff_of_true hstatus h⟩
  · exact ⟨by omega, iff_of_false (by omega) h⟩

/-- A service answers what a body holds, whatever host reads it. -/
theorem respondOn_of_read {host : Host} {body : ByteArray} {value : Json}
    (h : host.read body = .ok value) (settings : Settings) (endpoint : Endpoint) :
    respondOn host settings endpoint allowedMethod body =
      .ofOutcome (answerValue settings endpoint value) := by
  have hmethod : ¬ Text.upper allowedMethod ≠ allowedMethod := by decide +kernel
  rw [respondOn, if_neg hmethod, h]

/-- Whether a builder gives a machine or reports what is wrong with the definition. -/
def Builds {α : Type} (x : Except Fault α) : Prop :=
  (∃ a, x = .ok a) ∨ ∃ e, x = .error (.definition e)

theorem builds_iff {α : Type} {x : Except Fault α} :
    Builds x ↔ ¬ Fails Fault.OutsideDefinition x := by
  cases x with
  | ok a => exact iff_of_true (.inl ⟨a, rfl⟩) (not_fails_ok a)
  | error fault =>
      rw [fails_error_iff]
      simp [Builds, Fault.OutsideDefinition]

/-- **When a request ends in an error of the server.**  Each of the four builders gives a machine
or reports what is wrong with the definition, unless the definition holds a value that is used
before it is looked at.  Under the settings of a service that is given none, a value posted to an
endpoint is answered with the status 200, 400 or 500, and with 500 exactly if its definition is
such, or makes what is done with it come upon such a value, or the costs that a search for a
derivation adds up come out of range.  Every body that a host reads as the value has that
answer. -/
theorem status_eq_serverError_iff (definition value : Json) (endpoint : Endpoint) :
    ((Builds (Finite.Automaton.ofJson definition) ↔ ¬ Finite.Unforeseen definition) ∧
      (Builds (Pushdown.Automaton.ofJson definition) ↔ ¬ Pushdown.Unforeseen definition) ∧
      (Builds (Turing.Machine.ofJson definition) ↔ ¬ Turing.Unforeseen definition) ∧
      (Builds (ContextFree.Grammar.ofJson definition) ↔ ¬ ContextFree.Unforeseen definition)) ∧
    let response := Response.ofOutcome (answerValue .standard endpoint value)
    (response.status = 200 ∨ response.status = 400 ∨ response.status = 500) ∧
      (response.status = 500 ↔ ∃ request definition, value = .object request ∧
        definitionIn request endpoint.subject = .ok definition ∧
          endpoint.Unforeseen request definition) ∧
      ∀ (host : Host) (body : ByteArray), host.read body = .ok value →
        respondOn host .standard endpoint allowedMethod body = response := by
  constructor
  · simp only [builds_iff, not_iff_not]
    exact ⟨Finite.fails_ofJson_iff unreported_outsideDefinition,
      Pushdown.fails_ofJson_iff unreported_outsideDefinition,
      Turing.fails_ofJson_iff unreported_outsideDefinition,
      ContextFree.fails_ofJson_iff unreported_outsideDefinition⟩
  · obtain ⟨hstatus, hserverError⟩ := status_answerValue_cases endpoint value
    exact ⟨hstatus, hserverError, fun host body hread => respondOn_of_read hread .standard endpoint⟩

/-- A request to run a pushdown automaton of which one state is a list. -/
def listedState : Json :=
  .object [("automaton", .object [("states", .list [.text "q", .list []]),
    ("transitions", .list []), ("startState", .text "q"), ("initialStackSymbol", .text "Z")]),
    ("input", .text "")]

/-- Such a request ends in an error of the server. -/
theorem status_listedState : ∃ definition, listedState.member? "automaton" = some definition ∧
    Pushdown.Automaton.ofJson definition = .error (.value (.compoundSymbol (.list []))) ∧
    (Response.ofOutcome (answerValue .standard .simulatePushdown listedState)).status = 500 :=
  ⟨_, rfl, rfl, rfl⟩

/-- The body of such a request, in UTF-16 behind a byte order mark. -/
def listedBody : ByteArray :=
  let front := "\x7b\"automaton\":\x7b\"states\":[\"q\",[]],\"transitions\":[],".toList
  let back := "\"startState\":\"q\",\"initialStackSymbol\":\"Z\"\x7d,\"input\":\"\"\x7d".toList
  ⟨(0xFF :: 0xFE :: (front ++ back).flatMap fun c => [UInt8.ofNat c.toNat, 0]).toArray⟩

set_option maxRecDepth 4096 in
/-- A host reads it, and one that follows nothing as deep as it goes does not. -/
theorem status_eq_serverError_iff_listedBody :
    Host.standard.read listedBody = .ok listedState ∧
      Host.read ⟨2, none⟩ listedBody = .error .tooDeep ∧
      (∃ request definition, listedState = .object request ∧
        definitionIn request .automaton = .ok definition ∧
          Endpoint.simulatePushdown.Unforeseen request definition) ∧
      (respondOn .standard .standard .simulatePushdown allowedMethod listedBody).status = 500 := by
  have hread : Host.standard.read listedBody = .ok listedState := by cbv
  have hdeep : Host.read ⟨2, none⟩ listedBody = .error .tooDeep := by cbv
  have hstatus :
      (Response.ofOutcome (answerValue .standard .simulatePushdown listedState)).status = 500 := rfl
  obtain ⟨-, -, hserverError, hrespond⟩ :=
    status_eq_serverError_iff .null listedState .simulatePushdown
  refine ⟨hread, hdeep, hserverError.1 hstatus, ?_⟩
  rw [hrespond .standard listedBody hread, hstatus]

end Service

end FormalMachines
