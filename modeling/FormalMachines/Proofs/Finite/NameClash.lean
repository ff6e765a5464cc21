import FormalMachines.Proofs.Finite.Determinised

/-!
# FormalMachines.Proofs.Finite.NameClash

When the subset construction fails.

The search keeps all sets apart that can be reached, whatever their names are, and it finds no
others (`mem_subsets_iff`).  Of the checks that its result is put to, only the one for distinct
names of states can fail (`checked_eq_error`, `valid_subsetAutomaton_iff`), and it does so
exactly where two of the sets have one name (`Automaton.NameClash`).
-/

namespace FormalMachines.Finite

/-- Being a letter is the same for atoms that are the same symbol. -/
theorem EpsilonMode.isLetter_congr (mode : EpsilonMode) {s r : Atom} (h : s.Same r) :
    mode.isLetter s = mode.isLetter r := by
  cases mode with
  | literal => rfl
  | closure =>
      have hepsilon : s = .text epsilon ↔ r = .text epsilon := by
        rw [← Atom.key_eq_text_iff, h, Atom.key_eq_text_iff]
      simp only [isLetter, ne_eq, hepsilon]

namespace Automaton

variable {a : Automaton} {mode : EpsilonMode} {letters : List Atom} {addDead : Bool}
  {s t : NameSet} {symbol : Atom}

/-! ## The sets that can be reached -/

/-- Whether moves under letters lead from the start set to a set. -/
inductive ReachesSet (a : Automaton) (mode : EpsilonMode) : NameSet → Prop
  | start : a.ReachesSet mode (a.startSet mode)
  | move {s t : NameSet} {symbol : Atom} (before : a.ReachesSet mode s)
      (letter : mode.isLetter symbol) (move : a.subsetMove mode s symbol = some t) :
      a.ReachesSet mode t

theorem subsetMove_congr (a : Automaton) (mode : EpsilonMode) (s : NameSet) {letter : Atom}
    (h : letter.Same symbol) : a.subsetMove mode s letter = a.subsetMove mode s symbol := by
  have hkey : letter.key = symbol.key := h
  have htargets : a.targetSet s letter = a.targetSet s symbol :=
    NameSet.ext fun q => by simp only [mem_targetSet, Atom.Equals, Atom.Same, hkey]
  rw [subsetMove, subsetMove, htargets]

/-- What a set has a move under is one of the letters. -/
theorem exists_letter_of_subsetMove (hletters : a.letters mode = .ok letters)
    (hletter : mode.isLetter symbol) (h : a.subsetMove mode s symbol = some t) :
    ∃ letter ∈ letters, a.subsetMove mode s letter = some t := by
  obtain ⟨m, hm, ⟨hsame, -⟩, -⟩ := (exists_subsetMove_iff mode).1 ⟨t, h⟩
  obtain ⟨letter, hmem, hlabel⟩ :=
    exists_letter hletters hm (by rw [mode.isLetter_congr hsame]; exact hletter)
  exact ⟨letter, hmem, (a.subsetMove_congr mode s (hlabel.trans hsame)).trans h⟩

/-- **The sets that are found** are those that can be reached. -/
theorem mem_subsets_iff (hletters : a.letters mode = .ok letters) :
    s ∈ a.subsets mode letters ↔ a.ReachesSet mode s := by
  constructor
  · intro hs
    apply ((Worklist.mem_explore_iff (a.bounds_subsets mode letters)).1 hs).induct
    · intro s hs
      rw [List.mem_singleton.1 hs]
      exact .start
    · intro s t hreaches ht
      obtain ⟨symbol, hsymbol, hmove⟩ := List.mem_filterMap.1 ht
      exact .move hreaches (isLetter_of_mem_letters hletters hsymbol) hmove
  · intro hreaches
    induction hreaches with
    | start => exact startSet_mem_subsets
    | move _ hletter hmove hs =>
        obtain ⟨letter, hmem, hmove⟩ := exists_letter_of_subsetMove hletters hletter hmove
        exact subsetMove_mem_subsets hs hmem hmove

/-! ## Names -/

/-- Whether two sets that can be reached have one name. -/
def NameClash (a : Automaton) (mode : EpsilonMode) : Prop :=
  ∃ s t, a.ReachesSet mode s ∧ a.ReachesSet mode t ∧ s ≠ t ∧ s.name = t.name

theorem nodup_names_subsets_iff (hletters : a.letters mode = .ok letters) :
    ((a.subsets mode letters).map (·.name)).Nodup ↔ ¬ a.NameClash mode := by
  rw [List.nodup_map_iff_inj_on (a.nodup_subsets mode letters)]
  simp only [mem_subsets_iff hletters]
  constructor
  · rintro hinj ⟨s, t, hs, ht, hne, hname⟩
    exact hne (hinj s hs t ht hname)
  · intro hclash s hs t ht hname
    by_contra hne
    exact hclash ⟨s, t, hs, ht, hne, hname⟩

/-- Names of states that are not distinct are what the check comes upon first. -/
theorem checked_eq_error (h : ¬ a.names.Nodup) :
    a.checked = .error (.definition (.repeated "states")) := by
  have hnames : ¬ (a.toDraft.states.map (·.name)).Nodup := h
  rw [checked, Draft.validate, if_pos hnames]
  rfl

/-- Distinct names of states are all that the check of the subset automaton asks for. -/
theorem valid_subsetAutomaton_iff_nodup : (a.subsetAutomaton mode letters addDead).Valid ↔
    (a.subsetAutomaton mode letters addDead).names.Nodup :=
  ⟨fun hvalid => hvalid.1,
    fun hnames => valid_subsetAutomaton_iff.2 (nodup_names_of_subsetAutomaton hnames)⟩

/-- **The subset automaton is valid** unless there is a clash of names. -/
theorem valid_subsetAutomaton_iff_not_nameClash (hletters : a.letters mode = .ok letters) :
    (a.subsetAutomaton mode letters addDead).Valid ↔ ¬ a.NameClash mode :=
  valid_subsetAutomaton_iff.trans (nodup_names_subsets_iff hletters)

/-! ## The construction -/

/-- The construction, once the letters are known. -/
theorem determinise_eq_checked {epsilonMode : Json} (hletters : a.letters mode = .ok letters)
    (hmode : EpsilonMode.ofJson epsilonMode = .ok mode) (addDead : Bool) :
    a.determinise epsilonMode addDead = (a.subsetAutomaton mode letters addDead).checked := by
  rw [determinise, hmode]
  show (a.letters mode >>= fun letters => (a.subsetAutomaton mode letters addDead).checked) = _
  rw [hletters]
  rfl

theorem determinise_eq_error_of_nameClash {epsilonMode : Json}
    (hletters : a.letters mode = .ok letters) (hmode : EpsilonMode.ofJson epsilonMode = .ok mode)
    (addDead : Bool) (hclash : a.NameClash mode) :
    a.determinise epsilonMode addDead = .error (.definition (.repeated "states")) := by
  rw [determinise_eq_checked hletters hmode]
  apply checked_eq_error
  rw [← valid_subsetAutomaton_iff_nodup, valid_subsetAutomaton_iff_not_nameClash hletters]
  exact not_not_intro hclash

theorem determinise_eq_ok_of_not_nameClash {epsilonMode : Json}
    (hletters : a.letters mode = .ok letters) (hmode : EpsilonMode.ofJson epsilonMode = .ok mode)
    (addDead : Bool) (hclash : ¬ a.NameClash mode) :
    a.determinise epsilonMode addDead = .ok (a.subsetAutomaton mode letters addDead) := by
  rw [determinise_eq_checked hletters hmode, checked_eq_ok_iff]
  exact ⟨(valid_subsetAutomaton_iff_not_nameClash hletters).2 hclash, rfl⟩

/-- A state but the dead one is just one set that can be reached. -/
theorem existsUnique_set_of_mem_names (hletters : a.letters mode = .ok letters)
    (hvalid : (a.subsetAutomaton mode letters addDead).Valid) {q : Text}
    (hq : q ∈ (a.subsetAutomaton mode letters addDead).names) (hdead : q ≠ deadName) :
    ∃! s, a.ReachesSet mode s ∧ s.name = q := by
  obtain ⟨x, hx, rfl⟩ := mem_names_subsetAutomaton_iff.1 hq
  obtain ⟨s, hs, rfl⟩ | ⟨rfl, -⟩ := mem_places_iff.1 hx
  · refine ⟨s, ⟨(mem_subsets_iff hletters).1 hs, rfl⟩, fun t ⟨ht, hname⟩ => ?_⟩
    exact eq_of_name_eq hvalid ((mem_subsets_iff hletters).2 ht) hs hname
  · exact absurd rfl hdead

/-- **When the subset construction fails.**  It does so exactly where two sets that can be
reached have one name, and then reports that states are repeated, with `ε` read either way and
with or without a dead state.  So it succeeds where no state name holds the comma that joins
names.  If it succeeds, each set that can be reached is a state, and each state but the dead one
is one of them alone. -/
theorem determinise_nameClash {a : Automaton} {mode : EpsilonMode} {epsilonMode : Json}
    (hvalid : a.Valid) (hatoms : ∀ v ∈ a.alphabet, ∃ symbol, v = .atom symbol)
    (hmode : EpsilonMode.ofJson epsilonMode = .ok mode) (addDead : Bool) :
    ((∃ e, a.determinise epsilonMode addDead = .error e) ↔ a.NameClash mode) ∧
    (∀ e, a.determinise epsilonMode addDead = .error e →
      e = .definition (.repeated "states")) ∧
    ((∀ q ∈ a.names, .char ',' ∉ q) → ∃ d, a.determinise epsilonMode addDead = .ok d) ∧
    ∀ d, a.determinise epsilonMode addDead = .ok d →
      (∀ s, a.ReachesSet mode s → s.name ∈ d.names) ∧
      ∀ q ∈ d.names, q ≠ deadName → ∃! s, a.ReachesSet mode s ∧ s.name = q := by
  obtain ⟨letters, hletters⟩ := exists_letters mode hatoms
  have hok := determinise_eq_ok_of_not_nameClash hletters hmode addDead
  have herror := determinise_eq_error_of_nameClash hletters hmode addDead
  have hiff : (∃ e, a.determinise epsilonMode addDead = .error e) ↔ a.NameClash mode := by
    refine ⟨fun ⟨e, he⟩ => ?_, fun hclash => ⟨_, herror hclash⟩⟩
    by_contra hclash
    rw [hok hclash] at he
    cases he
  refine ⟨hiff, fun e he => ?error, fun hcommas => ?commas, fun d hd => ?states⟩
  case error =>
    rw [herror (hiff.1 ⟨e, he⟩)] at he
    exact (Except.error.inj he).symm
  case commas =>
    exact ⟨_, hok ((nodup_names_subsets_iff hletters).1 (nodup_names_subsets hvalid hcommas))⟩
  case states =>
    rw [determinise_eq_checked hletters hmode] at hd
    obtain ⟨hdvalid, rfl⟩ := (checked_eq_ok_iff _ _).1 hd
    refine ⟨fun s hs => ?_, fun q hq => existsUnique_set_of_mem_names hletters hdvalid hq⟩
    exact mem_names_subsetAutomaton_iff.2
      ⟨some s, some_mem_places ((mem_subsets_iff hletters).2 hs), rfl⟩

/-- A move to two states, and one to a state that is named like both. -/
def commaName : Automaton where
  states := [⟨"p", true, false⟩, ⟨"q", false, false⟩, ⟨"r", false, false⟩, ⟨"q,r", false, true⟩]
  alphabet := [.text "a", .text "b"]
  transitions := [⟨"p", "q", .text "a"⟩, ⟨"p", "r", .text "a"⟩, ⟨"p", "q,r", .text "b"⟩]
  start := "p"
  accepting := ["q,r"]

theorem nameClash_commaName : commaName.NameClash .literal := by
  have ha : EpsilonMode.literal.isLetter (.text "a") := rfl
  have hb : EpsilonMode.literal.isLetter (.text "b") := rfl
  exact ⟨.ofList ["q", "r"], .ofList ["q,r"], .move .start ha rfl, .move .start hb rfl,
    by decide, by decide⟩

/-- A name with a comma can make the construction fail, and without commas it succeeds. -/
theorem determinise_nameClash_commaName : commaName.Valid ∧
    (∃ e, commaName.determinise (.text "literal") true = .error e) ∧
    (∀ e, commaName.determinise (.text "literal") true = .error e →
      e = .definition (.repeated "states")) ∧
    forkedRoad.Valid ∧ ∃ d, forkedRoad.determinise (.text "closure") true = .ok d := by
  have hvalid : commaName.Valid := by decide
  have hatoms : ∀ v ∈ commaName.alphabet, ∃ symbol, v = .atom symbol := by
    simp [commaName, Json.text]
  have hmode : EpsilonMode.ofJson (.text "literal") = .ok .literal := rfl
  have hvalid' : forkedRoad.Valid := by decide
  have hatoms' : ∀ v ∈ forkedRoad.alphabet, ∃ symbol, v = .atom symbol := by
    simp [forkedRoad, Json.text]
  have hmode' : EpsilonMode.ofJson (.text "closure") = .ok .closure := rfl
  obtain ⟨hfails, herror, -, -⟩ := determinise_nameClash hvalid hatoms hmode true
  obtain ⟨-, -, hcommas, -⟩ := determinise_nameClash hvalid' hatoms' hmode' true
  exact ⟨hvalid, hfails.2 nameClash_commaName, herror, hvalid', hcommas (by decide)⟩

end Automaton

end FormalMachines.Finite
