import FormalMachines.Proofs.Checks
import FormalMachines.Service.Endpoint

/-!
# FormalMachines.Proofs.Service.Ceilings

Which limits the run of a request is under.

A request at one of the endpoints whose runs are limited asks for a run (`Job`) and, beside
it, for limits.  The answer is that of the run under these limits, completed by the ones of
its kind (`answer_eq_bind`).

* A limit with a ceiling is set and no more than the ceiling, if the request or else the
  settings name a value for it.
* A limit for which neither does, or which the request sets to `null`, is that of the kind
  of machine whatever the ceiling, and no limit at all where the kind has none.

Both halves are `answer_under_ceilings`.  So a request can free itself of a ceiling
(`answer_without_ceiling`).
-/

namespace FormalMachines.Service

/-! ## Runs -/

namespace Kind

/-- The endpoint that runs a kind of machine. -/
def endpoint : Kind → Endpoint
  | .pushdown => .simulatePushdown
  | .turing => .simulateTuring
  | .grammar => .derive

/-- The limits of a run of a kind that is given none. -/
def defaultBudget : Kind → Budget
  | .pushdown => Pushdown.defaultBudget
  | .turing => Turing.defaultBudget
  | .grammar => ContextFree.defaultBudget

end Kind

/-- A run without its limits. -/
inductive Job where
  | pushdown (a : Pushdown.Automaton) (mode : Json) (input : Text)
  | turing (m : Turing.Machine) (input : Text)
  | grammar (g : ContextFree.Grammar) (target : Text)

namespace Job

def kind : Job → Kind
  | .pushdown .. => .pushdown
  | .turing .. => .turing
  | .grammar .. => .grammar

/-- What is answered of a run under some limits. -/
def answer (job : Job) (budget : Budget) : Except Fault Json :=
  match job with
  | .pushdown a mode input => do return (← a.simulate mode input budget .never).toJson
  | .turing m input => return m.runJson (m.run input budget .never)
  | .grammar g target => do return (← g.attempt target budget .never).toJson

/-- The run that a request for a kind asks for. -/
def ofRequest (kind : Kind) (request : Json.Members) : Except Fault Job := do
  let definition ← definitionIn request kind.endpoint.subject
  match kind with
  | .pushdown =>
    let a ← Pushdown.Automaton.ofJson definition
    let mode := (request.get? "mode").getD (.text Pushdown.Mode.firstMatch.name)
    return .pushdown a mode (← textIn request "input")
  | .turing =>
    let m ← Turing.Machine.ofJson definition
    return .turing m (← textIn request "input")
  | .grammar =>
    let g ← ContextFree.Grammar.ofJson definition
    return .grammar g (← textIn request "target")

end Job

/-- **The answer to a request** is that of the run it asks for, under the limits it asks for. -/
theorem answer_eq_bind (settings : Settings) (kind : Kind) (request : Json.Members) :
    answer settings kind.endpoint request = (do
      let job ← Job.ofRequest kind request
      let budget ← requestBudget settings kind request
      job.answer budget) := by
  cases kind <;>
    simp only [answer, Job.ofRequest, Kind.endpoint, Job.answer, bind_assoc, pure_bind]

/-- A run looks at the completed limits alone. -/
theorem Job.answer_completedBy (job : Job) (budget : Budget) :
    job.answer (budget.completedBy job.kind.defaultBudget) = job.answer budget := by
  cases job with
  | pushdown a mode input =>
      have hsteps : Pushdown.stepLimit (budget.completedBy Pushdown.defaultBudget) =
          Pushdown.stepLimit budget := by
        rw [Pushdown.stepLimit, Pushdown.steps_completedBy, Option.getD_some]
      have hnodes : Pushdown.nodeLimit (budget.completedBy Pushdown.defaultBudget) =
          Pushdown.nodeLimit budget := by
        rw [Pushdown.nodeLimit, Pushdown.nodes_completedBy, Option.getD_some]
      have hrun : ∀ m, a.runIn m input (budget.completedBy Pushdown.defaultBudget) .never =
          a.runIn m input budget .never := by
        intro m
        simp only [Pushdown.Automaton.runIn, Pushdown.Automaton.runFirstMatch,
          Pushdown.Automaton.runSearch, hsteps, hnodes]
      simp only [answer, kind, Kind.defaultBudget, Pushdown.Automaton.simulate, hrun]
  | turing m input =>
      have hsteps : Turing.stepLimit (budget.completedBy Turing.defaultBudget) =
          Turing.stepLimit budget := by
        rw [Turing.stepLimit, Turing.steps_completedBy, Option.getD_some]
      simp only [answer, kind, Kind.defaultBudget, Turing.Machine.run, hsteps]
  | grammar g target =>
      have hdepth : ContextFree.depthLimit (budget.completedBy ContextFree.defaultBudget) =
          ContextFree.depthLimit budget := by
        rw [ContextFree.depthLimit, ContextFree.depth_completedBy, Option.getD_some]
      have hnodes : (budget.completedBy ContextFree.defaultBudget).nodes = budget.nodes := by
        cases h : budget.nodes <;> simp [Budget.completedBy, ContextFree.defaultBudget, h]
      simp only [answer, kind, Kind.defaultBudget, ContextFree.Grammar.attempt, hdepth, hnodes]

theorem Job.kind_of_ofRequest {kind : Kind} {request : Json.Members} {job : Job}
    (h : Job.ofRequest kind request = .ok job) : job.kind = kind := by
  unfold Job.ofRequest at h
  obtain ⟨definition, -, h⟩ := bind_eq_ok h
  cases kind with
  | pushdown =>
      obtain ⟨a, -, h⟩ := bind_eq_ok h
      obtain ⟨input, -, h⟩ := bind_eq_ok h
      cases h
      rfl
  | turing =>
      obtain ⟨m, -, h⟩ := bind_eq_ok h
      obtain ⟨input, -, h⟩ := bind_eq_ok h
      cases h
      rfl
  | grammar =>
      obtain ⟨g, -, h⟩ := bind_eq_ok h
      obtain ⟨target, -, h⟩ := bind_eq_ok h
      cases h
      rfl

/-- The run that a request asks for is under the limits that it asks for, completed by those of
the kind. -/
theorem answer_eq_job_answer {settings : Settings} {kind : Kind} {request : Json.Members}
    {job : Job} {asked : Budget} (hjob : Job.ofRequest kind request = .ok job)
    (hasked : requestBudget settings kind request = .ok asked) :
    answer settings kind.endpoint request = job.answer (asked.completedBy kind.defaultBudget) := by
  have hcompleted := job.answer_completedBy asked
  rw [Job.kind_of_ofRequest hjob] at hcompleted
  rw [answer_eq_bind, hjob, hasked, hcompleted]
  rfl

/-! ## Limits -/

/-- The value that a table of the settings names for a limit of a kind. -/
def limitIn (tables : Json) (kind : Kind) (limit : Limit) : Option Json :=
  (tables.member? kind.key).bind (·.member? limit.key)

/-- The value that a request sets a limit to, or else the settings. -/
def wanted (settings : Settings) (kind : Kind) (request : Json.Members) (limit : Limit) : Json :=
  (request.get? limit.key).getD ((limitIn settings.defaults kind limit).getD .null)

/-- The table of a kind names what the settings name for the kind. -/
theorem member?_of_tableOf {tables table : Json} {kind : Kind} (h : tableOf tables kind = .ok table)
    (limit : Limit) : table.member? limit.key = limitIn tables kind limit := by
  cases tables with
  | atom | list => cases h
  | object members =>
      cases h
      simp only [limitIn, Json.member?]
      cases Json.Members.get? members kind.key <;> rfl

theorem defaultIn_eq {table value : Json} {limit : Limit} (h : defaultIn table limit = .ok value) :
    value = (table.member? limit.key).getD .null := by
  cases table with
  | atom | list => cases h
  | object members =>
      cases h
      rfl

theorem ceilingIn?_eq {table ceiling : Json} {limit : Limit}
    (h : table.member? limit.key = some ceiling) : ceilingIn? table limit = .ok (some ceiling) := by
  cases table with
  | atom | list => cases h
  | object members => exact congrArg Except.ok h

theorem capped_nat (n : Int) (ceiling : Nat) :
    capped n (.nat ceiling) = .ok (.integer (min n ceiling)) := by
  simp only [capped, Json.nat, Json.integer, Atom.key, Rat.intCast_lt_intCast]
  split
  · rename_i hlt
    rw [Int.min_eq_right (Int.le_of_lt hlt)]
  · rename_i hle
    rw [Int.min_eq_left (Int.not_lt.1 hle)]

/-- What a limit is worked out to: nothing if `null` is wanted, and else an integer, lowered to
the ceiling if there is one. -/
theorem limitValue_cases {settings : Settings} {kind : Kind} {request : Json.Members}
    {defaults ceilings value : Json} {limit : Limit}
    (hdefaults : tableOf settings.defaults kind = .ok defaults)
    (hceilings : tableOf settings.ceilings kind = .ok ceilings)
    (hvalue : limitValue request defaults ceilings limit = .ok value) :
    (wanted settings kind request limit = .null ∧ value = .null) ∨
      ∃ n : Int, wanted settings kind request limit = .integer n ∧
        ∀ ceiling : Nat, limitIn settings.ceilings kind limit = some (.nat ceiling) →
          value = .integer (min n ceiling) := by
  obtain ⟨default, hdefault, hvalue⟩ := bind_eq_ok hvalue
  have hwanted : (request.get? limit.key).getD default = wanted settings kind request limit := by
    rw [wanted, defaultIn_eq hdefault, member?_of_tableOf hdefaults]
  rw [hwanted] at hvalue
  split at hvalue
  · rename_i hnull
    cases hvalue
    exact .inl ⟨hnull, rfl⟩
  · rename_i n hn
    refine .inr ⟨n, hn, fun ceiling hceiling => ?_⟩
    rw [ceilingIn?_eq ((member?_of_tableOf hceilings limit).trans hceiling)] at hvalue
    have hcapped : capped n (.nat ceiling) = .ok value := hvalue
    rw [capped_nat] at hcapped
    cases hcapped
    rfl
  · cases hvalue

/-- The limits of a budget are read one by one. -/
theorem readLimit_of_ofValues {value : Limit → Json} {b : Budget}
    (h : Budget.ofValues value = .ok b) (limit : Limit) :
    Budget.readLimit limit (value limit) = .ok (b.get limit) := by
  obtain ⟨steps, hsteps, h⟩ := bind_eq_ok h
  obtain ⟨depth, hdepth, h⟩ := bind_eq_ok h
  obtain ⟨nodes, hnodes, h⟩ := bind_eq_ok h
  cases h
  cases limit with
  | steps => exact hsteps
  | depth => exact hdepth
  | nodes => exact hnodes

/-- A limit that is set is positive. -/
theorem readLimit_integer {limit : Limit} {n : Int} {read : Option Nat}
    (h : Budget.readLimit limit (.integer n) = .ok read) :
    ∃ k : Nat, read = some k ∧ 0 < k ∧ (k : Int) = n := by
  simp only [Budget.readLimit, Json.integer] at h
  split at h
  · rename_i hpos
    cases h
    exact ⟨n.toNat, rfl, by omega, by omega⟩
  · cases h

theorem exists_limitValue {settings : Settings} {kind : Kind} {request : Json.Members}
    {asked : Budget} (h : requestBudget settings kind request = .ok asked) (limit : Limit) :
    ∃ defaults ceilings value, tableOf settings.defaults kind = .ok defaults ∧
      tableOf settings.ceilings kind = .ok ceilings ∧
      limitValue request defaults ceilings limit = .ok value ∧
      Budget.readLimit limit value = .ok (asked.get limit) := by
  obtain ⟨defaults, hdefaults, h⟩ := bind_eq_ok h
  obtain ⟨ceilings, hceilings, h⟩ := bind_eq_ok h
  obtain ⟨steps, hsteps, h⟩ := bind_eq_ok h
  obtain ⟨depth, hdepth, h⟩ := bind_eq_ok h
  obtain ⟨nodes, hnodes, h⟩ := bind_eq_ok h
  have hread := readLimit_of_ofValues h limit
  refine ⟨defaults, ceilings, _, hdefaults, hceilings, ?_, hread⟩
  cases limit with
  | steps => exact hsteps
  | depth => exact hdepth
  | nodes => exact hnodes

/-- The limit that a request asks for: none if `null` is wanted, and else a positive one, no
more than the ceiling. -/
theorem requestBudget_get {settings : Settings} {kind : Kind} {request : Json.Members}
    {asked : Budget} (h : requestBudget settings kind request = .ok asked) {limit : Limit}
    {ceiling : Nat} (hceiling : limitIn settings.ceilings kind limit = some (.nat ceiling)) :
    (wanted settings kind request limit = .null ∧ asked.get limit = none) ∨
      (wanted settings kind request limit ≠ .null ∧
        ∃ n, asked.get limit = some n ∧ 0 < n ∧ n ≤ ceiling) := by
  obtain ⟨defaults, ceilings, value, hdefaults, hceilings, hvalue, hread⟩ :=
    exists_limitValue h limit
  obtain ⟨hnull, rfl⟩ | ⟨n, hn, hlowered⟩ := limitValue_cases hdefaults hceilings hvalue
  · exact .inl ⟨hnull, (Except.ok.inj hread).symm⟩
  · rw [hlowered ceiling hceiling] at hread
    obtain ⟨k, hk, hpos, hmin⟩ := readLimit_integer hread
    refine .inr ⟨fun hnull => ?_, k, hk, hpos, by omega⟩
    rw [hn] at hnull
    cases hnull

/-- **The limits of a run.**  What is answered to a request is the answer of a run under limits
that are all set and under their ceilings, where the request or else the settings name a
value.  Where neither does or the request says `null`, the limit is that of the kind, and the
ceiling has no part in it. -/
theorem answer_under_ceilings {settings : Settings} {kind : Kind} {request : Json.Members}
    {job : Job} {asked : Budget} (hjob : Job.ofRequest kind request = .ok job)
    (hasked : requestBudget settings kind request = .ok asked) :
    let budget := asked.completedBy kind.defaultBudget
    answer settings kind.endpoint request = job.answer budget ∧
      ∀ limit ceiling, limitIn settings.ceilings kind limit = some (.nat ceiling) →
        (wanted settings kind request limit ≠ .null →
          ∃ n, budget.get limit = some n ∧ 0 < n ∧ n ≤ ceiling) ∧
        (wanted settings kind request limit = .null →
          budget.get limit = kind.defaultBudget.get limit) := by
  intro budget
  refine ⟨answer_eq_job_answer hjob hasked, fun limit ceiling hceiling => ?_⟩
  have hbudget : budget.get limit = (asked.get limit <|> kind.defaultBudget.get limit) :=
    Budget.get_completedBy asked kind.defaultBudget limit
  rw [hbudget]
  obtain ⟨hnull, hnone⟩ | ⟨hset, n, hn, hpos, hle⟩ := requestBudget_get hasked hceiling
  · refine ⟨fun h => absurd hnull h, fun _ => ?_⟩
    rw [hnone]
    rfl
  · refine ⟨fun _ => ⟨n, ?_, hpos, hle⟩, fun h => absurd h hset⟩
    rw [hn]
    rfl

/-- The grammar whose one production is `S → a`. -/
def oneLetter : Json :=
  .object [("terminals", .texts ["a"]), ("nonTerminals", .texts ["S"]),
    ("productions", .list [.object [("left", .text "S"), ("right", .texts ["a"])]]),
    ("startSymbol", .text "S")]

/-- A request for a derivation of `a` with a limit on the nodes. -/
def deriveWithin (nodes : Json) : Json.Members :=
  [("grammar", oneLetter), ("target", .text "a"), (Limit.nodes.key, nodes)]

/-- A request for more nodes than the ceiling has them lowered to it. -/
theorem answer_under_ceilings_lowered :
    ∃ job asked, Job.ofRequest .grammar (deriveWithin (.nat 600000)) = .ok job ∧
      requestBudget .standard .grammar (deriveWithin (.nat 600000)) = .ok asked ∧
      ∃ n, (asked.completedBy ContextFree.defaultBudget).get .nodes = some n ∧ 0 < n ∧
        n ≤ 500000 := by
  obtain ⟨job, hjob⟩ : ∃ job, Job.ofRequest .grammar (deriveWithin (.nat 600000)) = .ok job :=
    ⟨_, rfl⟩
  obtain ⟨asked, hasked⟩ :
      ∃ asked, requestBudget .standard .grammar (deriveWithin (.nat 600000)) = .ok asked := ⟨_, rfl⟩
  have hceiling : limitIn Settings.standard.ceilings .grammar .nodes = some (.nat 500000) := rfl
  obtain ⟨hset, _⟩ := (answer_under_ceilings hjob hasked).2 .nodes 500000 hceiling
  exact ⟨job, asked, hjob, hasked, hset (by rintro ⟨⟩)⟩

/-- Settings that let a derivation expand no more than one node. -/
def tight : Settings where
  defaults := .object [(Kind.grammar.key, limits [(.depth, 20), (.nodes, 1)])]
  ceilings := .object [(Kind.grammar.key, limits [(.depth, 40), (.nodes, 1)])]

/-- A request that sets a limit to `null` has its run under no limit, whatever the ceiling. -/
theorem answer_without_ceiling :
    ∃ job asked, Job.ofRequest .grammar (deriveWithin .null) = .ok job ∧
      requestBudget tight .grammar (deriveWithin .null) = .ok asked ∧
      answer tight .derive (deriveWithin .null) =
        job.answer (asked.completedBy ContextFree.defaultBudget) ∧
      limitIn tight.ceilings .grammar .nodes = some (.nat 1) ∧
      (asked.completedBy ContextFree.defaultBudget).get .nodes = none := by
  obtain ⟨job, hjob⟩ : ∃ job, Job.ofRequest .grammar (deriveWithin .null) = .ok job := ⟨_, rfl⟩
  have hasked : requestBudget tight .grammar (deriveWithin .null) = .ok { depth := some 20 } := by
    rfl
  exact ⟨job, _, hjob, hasked, answer_eq_job_answer hjob hasked, rfl, rfl⟩

-- nor does the ceiling of a service that is given no settings bind it
example : (requestBudget .standard .grammar (deriveWithin .null)).map
    (·.completedBy ContextFree.defaultBudget) = .ok { depth := some 20 } := by rfl

end FormalMachines.Service
