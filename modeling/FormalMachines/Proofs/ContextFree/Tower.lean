import FormalMachines.Proofs.ContextFree.Attempt
import FormalMachines.Proofs.ContextFree.Document

/-!
# FormalMachines.Proofs.ContextFree.Tower

Grammars on which the search that runs fails.

A *tower* has a floor for every number up to its height: the lowest is a letter, and each of
the others so many copies of the one below it, so a floor yields a text whose length is
exponential in its number.  The start symbol is the letter, or the top floor beside a symbol
without productions.  That symbol costs infinity, and where the top floor costs a number out
of range their sum fails (`attempt_tower`), although the other alternative derives the letter
in one step.
-/

namespace FormalMachines.ContextFree

/-- The productions of the floors up to one. -/
def floors (name : Nat → Text) (copies : Nat) : Nat → List Production
  | 0 => [⟨name 0, ["a"]⟩]
  | n + 1 => floors name copies n ++ [⟨name (n + 1), List.replicate copies (name n)⟩]

/-- The production with the top floor. -/
def top (name : Nat → Text) (height : Nat) : Production := ⟨"S", [name height, "U"]⟩

/-- The productions before that. -/
def belowTop (name : Nat → Text) (copies height : Nat) : List Production :=
  floors name copies height ++ [⟨"S", ["a"]⟩]

/-- The grammar of a tower. -/
def tower (name : Nat → Text) (copies height : Nat) : Grammar where
  terminals := [.text "a"]
  nonTerminals := .text "S" :: .text "U" :: (List.range (height + 1)).map fun n => .text (name n)
  productions := belowTop name copies height ++ [top name height]
  start := "S"

/-- The texts that are no names of floors. -/
def reserved : List Text := [[], "S", "U", "a", epsilon]

/-- Whether floors have different names, none of which is reserved. -/
structure Names (name : Nat → Text) (height : Nat) : Prop where
  inj : ∀ m ≤ height, ∀ n ≤ height, name m = name n → m = n
  fresh : ∀ n ≤ height, name n ∉ reserved

theorem Names.ne {name : Nat → Text} {height n : Nat} (h : Names name height) (hn : n ≤ height)
    {s : Text} (hs : s ∈ reserved) : name n ≠ s :=
  fun hname => h.fresh n hn (hname ▸ hs)

namespace Grammar

variable {name : Nat → Text} {copies height : Nat}

/-! ## A tower is a grammar -/

theorem productions_tower :
    (tower name copies height).productions = belowTop name copies height ++ [top name height] := rfl

theorem isNonTerminal_tower_iff {s : Text} :
    (tower name copies height).isNonTerminal s ↔ s = "S" ∨ s = "U" ∨ ∃ n ≤ height, name n = s := by
  simp [isNonTerminal, tower]

theorem isNonTerminal_floor {n : Nat} (hn : n ≤ height) :
    (tower name copies height).isNonTerminal (name n) :=
  isNonTerminal_tower_iff.2 (.inr (.inr ⟨n, hn, rfl⟩))

theorem isNonTerminal_start : (tower name copies height).isNonTerminal "S" :=
  isNonTerminal_tower_iff.2 (.inl rfl)

theorem isNonTerminal_neighbour : (tower name copies height).isNonTerminal "U" :=
  isNonTerminal_tower_iff.2 (.inr (.inl rfl))

theorem not_isNonTerminal_letter (h : Names name height) :
    ¬ (tower name copies height).isNonTerminal "a" := by
  intro hletter
  obtain hS | hU | ⟨n, hn, hname⟩ := isNonTerminal_tower_iff.1 hletter
  · exact absurd hS (by decide)
  · exact absurd hU (by decide)
  · exact h.ne hn (by decide) hname

theorem exists_of_mem_floors {n : Nat} {p : Production} (h : p ∈ floors name copies n) :
    p = ⟨name 0, ["a"]⟩ ∨ ∃ m < n, p = ⟨name (m + 1), List.replicate copies (name m)⟩ := by
  induction n with
  | zero => exact .inl (List.mem_singleton.1 h)
  | succ n ih =>
      rw [floors, List.mem_append, List.mem_singleton] at h
      obtain h | h := h
      · obtain h | ⟨m, hm, h⟩ := ih h
        · exact .inl h
        · exact .inr ⟨m, Nat.lt_succ_of_lt hm, h⟩
      · exact .inr ⟨n, Nat.lt_succ_self n, h⟩

theorem nodup_keys_tower (h : Names name height) :
    ((tower name copies height).nonTerminals.map (·.key)).Nodup := by
  have hkeys : (tower name copies height).nonTerminals.map (·.key) =
      .text "S" :: .text "U" :: (List.range (height + 1)).map fun n => Atom.Key.text (name n) := by
    simp only [tower, List.map_cons, List.map_map]
    rfl
  have hnot : ∀ s ∈ reserved,
      Atom.Key.text s ∉ (List.range (height + 1)).map fun n => Atom.Key.text (name n) := by
    intro s hs hmem
    obtain ⟨n, hn, hname⟩ := List.mem_map.1 hmem
    exact h.ne (Nat.le_of_lt_succ (List.mem_range.1 hn)) hs (Atom.Key.text.inj hname)
  rw [hkeys, List.nodup_cons, List.nodup_cons]
  refine ⟨fun hmem => ?_, hnot "U" (by decide), ?_⟩
  · obtain hU | hmem := List.mem_cons.1 hmem
    · exact absurd hU (by decide)
    · exact hnot "S" (by decide) hmem
  · refine List.nodup_range.map_on fun m hm n hn hname => ?_
    exact h.inj m (Nat.le_of_lt_succ (List.mem_range.1 hm)) n
      (Nat.le_of_lt_succ (List.mem_range.1 hn)) (Atom.Key.text.inj hname)

theorem valid_tower (h : Names name height) : (tower name copies height).Valid := by
  have hletter : ∀ s ∈ (["a"] : List Text), (tower name copies height).isKnown s := by
    simp [isKnown, tower]
  have hknown : ∀ {s}, (tower name copies height).isNonTerminal s →
      (tower name copies height).isKnown s := fun hs => by simp [isKnown, hs]
  refine ⟨nodup_keys_tower h, fun a ha hkey => ?_, by simp [tower], fun p hp => ?_⟩
  · obtain rfl : a = .text "a" := Atom.key_eq_text_iff.1 (List.mem_singleton.1 hkey)
    exact not_isNonTerminal_letter h (decide_eq_true ha)
  · obtain hp | hp := List.mem_append.1 hp
    · obtain hp | hp := List.mem_append.1 hp
      · obtain rfl | ⟨m, hm, rfl⟩ := exists_of_mem_floors hp
        · exact ⟨isNonTerminal_floor (Nat.zero_le _), hletter⟩
        · refine ⟨isNonTerminal_floor hm, fun s hs => ?_⟩
          rw [List.eq_of_mem_replicate hs]
          exact hknown (isNonTerminal_floor (Nat.le_of_lt hm))
      · obtain rfl := List.mem_singleton.1 hp
        exact ⟨isNonTerminal_start, hletter⟩
    · obtain rfl := List.mem_singleton.1 hp
      refine ⟨isNonTerminal_start, fun s hs => ?_⟩
      obtain rfl | hs := List.mem_cons.1 hs
      · exact hknown (isNonTerminal_floor (Nat.le_refl _))
      · exact List.mem_singleton.1 hs ▸ hknown isNonTerminal_neighbour

/-! ## The costs of the floors -/

theorem yield_costOfForm_replicate {g : Grammar} {table : CostTable} {s : Text}
    (hs : g.isNonTerminal s) {v : Nat} (hv : (table.get s).yield = .finite v) (n : Nat) :
    (g.costOfForm table (List.replicate n s)).yield = .finite (n * v) := by
  induction n with
  | zero => rw [Nat.zero_mul]; rfl
  | succ n ih =>
      rw [List.replicate_succ, costOfForm_cons]
      change (g.costOf table s).yield + _ = _
      rw [ih, costOf, if_pos hs, hv, Cost.finite_add, Nat.succ_mul, Nat.add_comm]

/-- Whether a table has the costs of the floors up to one, and of nothing else. -/
structure Built (name : Nat → Text) (copies n : Nat) (table : CostTable) : Prop where
  floor : ∀ m ≤ n, (table.get (name m)).yield = .finite (copies ^ m)
  others : ∀ s, (∀ m ≤ n, s ≠ name m) → table.get s = .infinite

theorem get_initialCosts (g : Grammar) (s : Text) : g.initialCosts.get s = .infinite := by
  unfold CostTable.get
  cases hlookup : g.initialCosts.lookup s with
  | none => rfl
  | some c =>
      obtain ⟨t, _, heq⟩ := List.mem_map.1 (CostTable.mem_of_lookup hlookup)
      cases heq
      rfl

/-- A production of a floor that has no costs so far. -/
theorem yield_relax_of_infinite {g : Grammar} {table : CostTable} {p : Production}
    (hmem : p.left ∈ table.keys) (hget : table.get p.left = .infinite) {v : Nat}
    (hv : (g.costOfProduction table p).yield = .finite v) :
    ((g.relax table p).get p.left).yield = .finite v := by
  rw [relax, CostTable.get_lower, if_pos ⟨rfl, hmem⟩, hget]
  change Cost.min .infinite _ = _
  rw [Cost.infinite_min, hv]

theorem get_relax_of_ne {g : Grammar} {table : CostTable} {p : Production} {s : Text}
    (hs : s ≠ p.left) : (g.relax table p).get s = table.get s := by
  rw [relax, CostTable.get_lower, if_neg fun h => hs h.1]

/-- **The floors** up to one cost what they yield. -/
theorem built_floors (h : Names name height) {n : Nat} (hn : n ≤ height) :
    let g := tower name copies height
    Built name copies n ((floors name copies n).foldl g.relax g.initialCosts) := by
  intro g
  have hkeys : ∀ ps : List Production, ∀ m ≤ height,
      name m ∈ (ps.foldl g.relax g.initialCosts).keys := fun ps m hm => by
    rw [keys_foldl_relax]
    exact mem_keys_initialCosts_iff.2 (isNonTerminal_floor hm)
  induction n with
  | zero =>
      have hyield : (g.costOfProduction g.initialCosts ⟨name 0, ["a"]⟩).yield = .finite 1 := by
        change (g.costOf g.initialCosts "a" + .zero).yield = _
        rw [costOf, if_neg (not_isNonTerminal_letter h)]
        rfl
      constructor
      · intro m hm
        obtain rfl := Nat.le_zero.1 hm
        exact yield_relax_of_infinite (hkeys [] 0 hn) (get_initialCosts g _) hyield
      · intro s hs
        exact (get_relax_of_ne (hs 0 (Nat.le_refl 0))).trans (get_initialCosts g s)
  | succ n ih =>
      have hbuilt := ih (Nat.le_of_succ_le hn)
      rw [floors, List.foldl_append]
      generalize htable : (floors name copies n).foldl g.relax g.initialCosts = table at hbuilt ⊢
      have hfresh : ∀ m ≤ n, name (n + 1) ≠ name m := fun m hm heq => by
        have := h.inj (n + 1) hn m (by omega) heq
        omega
      have hyield : (g.costOfProduction table ⟨name (n + 1), List.replicate copies (name n)⟩).yield =
          .finite (copies ^ (n + 1)) := by
        have hsymbols : (⟨name (n + 1), List.replicate copies (name n)⟩ : Production).symbols =
            List.replicate copies (name n) :=
          List.filter_eq_self.2 fun s hs => by
            rw [List.eq_of_mem_replicate hs]
            exact decide_eq_true (h.ne (Nat.le_of_succ_le hn) (by decide))
        change (g.costOfForm table (Production.symbols _)).yield = _
        rw [hsymbols, yield_costOfForm_replicate (isNonTerminal_floor (Nat.le_of_succ_le hn))
          (hbuilt.floor n (Nat.le_refl n)), Nat.pow_succ, Nat.mul_comm]
      constructor
      · intro m hm
        obtain hlt | rfl := Nat.lt_or_eq_of_le hm
        · rw [List.foldl_cons, List.foldl_nil, get_relax_of_ne fun heq => ?_]
          · exact hbuilt.floor m (Nat.le_of_lt_succ hlt)
          · exact hfresh m (Nat.le_of_lt_succ hlt) heq.symm
        · exact yield_relax_of_infinite (htable ▸ hkeys _ _ hn) (hbuilt.others _ hfresh) hyield
      · intro s hs
        refine (get_relax_of_ne (hs (n + 1) (Nat.le_refl _))).trans ?_
        exact hbuilt.others s fun m hm => hs m (Nat.le_succ_of_le hm)

/-! ## The top of a tower -/

theorem symbols_top (h : Names name height) : (top name height).symbols = [name height, "U"] := by
  refine List.filter_eq_self.2 fun s hs => ?_
  obtain rfl | hs := List.mem_cons.1 hs
  · exact decide_eq_true (h.ne (Nat.le_refl _) (by decide))
  · rw [List.mem_singleton.1 hs]
    decide

/-- The costs that the top floor and its neighbour have when they are added up. -/
theorem costs_belowTop (h : Names name height) :
    let g := tower name copies height
    let table := (belowTop name copies height).foldl g.relax g.initialCosts
    (table.get (name height)).yield = .finite (copies ^ height) ∧ table.get "U" = .infinite := by
  intro g table
  have hbuilt : Built name copies height ((floors name copies height).foldl g.relax g.initialCosts) :=
    built_floors h (Nat.le_refl height)
  have hS : name height ≠ "S" := h.ne (Nat.le_refl _) (by decide)
  have hU : ∀ m ≤ height, "U" ≠ name m := fun m hm => (h.ne hm (by decide)).symm
  simp only [table, belowTop, List.foldl_append, List.foldl_cons, List.foldl_nil]
  rw [get_relax_of_ne hS, get_relax_of_ne (by decide)]
  exact ⟨hbuilt.floor height (Nat.le_refl _), hbuilt.others "U" hU⟩

end Grammar

/-- A number out of range is not added to infinity. -/
theorem Costs.sum_infinite_ne_ok {c d e : Costs} {v : Nat} (hv : c.yield = .finite v)
    (hrange : Cost.range ≤ v) (hd : d = .infinite) : c.sum d ≠ .ok e := by
  intro hok
  obtain ⟨yield, hyield, -⟩ := bind_eq_ok hok
  rw [hv, hd, show Costs.infinite.yield = .infinite from rfl, Cost.sum,
    Cost.infinitePlus_of_le hrange] at hyield
  cases hyield

namespace Grammar

/-- Two symbols are not added up if the first is out of range and the second infinite. -/
theorem addUp_ne_ok {g : Grammar} {table : CostTable} {first second : Text} {bound v : Nat}
    (hcovers : table.Covers g bound) (hbound : 1 ≤ bound) (hfirst : g.isNonTerminal first)
    (hsecond : g.isNonTerminal second) (hv : (table.get first).yield = .finite v)
    (hrange : Cost.range ≤ v) (hinfinite : table.get second = .infinite) (total : Costs) :
    g.addUp table ⟨0, .finite 1⟩ [first, second] ≠ .ok total := by
  have hone : Costs.AtMost ⟨0, .finite 1⟩ 1 := ⟨Nat.zero_le 1, Nat.le_refl 1⟩
  obtain ⟨hlookup, hcost⟩ := attemptCostOf_eq_ok hcovers hbound first
  intro hok
  rw [addUp, List.foldlM_cons, hlookup] at hok
  obtain ⟨sum, hsum, hok⟩ := bind_eq_ok hok
  rw [List.foldlM_cons, (attemptCostOf_eq_ok hcovers hbound second).1] at hok
  obtain ⟨last, hlast, -⟩ := bind_eq_ok hok
  have hyield : sum.yield = .finite v := by
    rw [(Costs.reckons_sum hone hcost).eq_of_ok hsum, costOf, if_pos hfirst]
    change 0 + (table.get first).yield = _
    rw [Cost.zero_add, hv]
  have hneighbour : g.costOf table second = .infinite := by rw [costOf, if_pos hsecond, hinfinite]
  exact Costs.sum_infinite_ne_ok hyield hrange hneighbour hlast

/-- **No costs**: the first sweep does not get past the top. -/
theorem attemptCosts_tower_ne_ok (h : Names name height) (hrange : Cost.range ≤ copies ^ height)
    (settled : CostTable) : (tower name copies height).attemptCosts ≠ .ok settled := by
  intro hok
  have hg : (tower name copies height).Valid := valid_tower h
  obtain ⟨hyield, hinfinite⟩ := costs_belowTop h
  have hsub : belowTop name copies height ⊆ (tower name copies height).productions := by
    exact List.subset_append_left _ _
  have hcovers := ((tame_initialCosts _).foldl_relax hsub).covers
  have hbelow := reckons_foldlM_attemptRelax hg (tame_initialCosts _) hsub (Nat.le_refl _)
  obtain ⟨swept, hsweep, -⟩ := bind_eq_ok hok
  rw [attemptSweep, productions_tower, List.foldlM_append] at hsweep
  obtain ⟨table, htable, hlast⟩ := bind_eq_ok hsweep
  obtain rfl := hbelow.eq_of_ok htable
  rw [List.foldlM_cons] at hlast
  obtain ⟨relaxed, hrelax, -⟩ := bind_eq_ok hlast
  obtain ⟨total, htotal, -⟩ := bind_eq_ok hrelax
  rw [symbols_top h] at htotal
  exact addUp_ne_ok hcovers (one_le_costBound _) (isNonTerminal_floor (Nat.le_refl height))
    isNonTerminal_neighbour hyield hrange hinfinite total htotal

/-- **A tower that is too high**: the search that runs fails, whatever it is asked for. -/
theorem attempt_tower (h : Names name height) (hrange : Cost.range ≤ copies ^ height)
    (target : Text) (budget : Budget) (cancel : Cancellation) :
    ∃ n, Cost.range ≤ n ∧
      (tower name copies height).attempt target budget cancel = .error (.value (.outOfRange n)) := by
  have hg : (tower name copies height).Valid := valid_tower h
  obtain hok | ⟨n, hn, _, herror⟩ := (reckons_attempt hg target budget cancel).eq_ok_or
  · obtain ⟨settled, hsettled, _⟩ := bind_eq_ok hok
    exact absurd hsettled (attemptCosts_tower_ne_ok h hrange settled)
  · exact ⟨n, hn, herror⟩

/-! ## A definition -/

theorem ofJson_toJson_tower (h : Names name height) :
    Grammar.ofJson (tower name copies height).toJson = .ok (tower name copies height) := by
  have hS : ("S" : Text) ≠ [] := by decide
  refine ofJson_toJson (valid_tower h) hS fun p hp => ?_
  obtain hp | hp := List.mem_append.1 hp
  · obtain hp | hp := List.mem_append.1 hp
    · obtain rfl | ⟨m, hm, rfl⟩ := exists_of_mem_floors hp
      · exact h.ne (Nat.zero_le _) (by decide)
      · exact h.ne hm (by decide)
    · obtain rfl := List.mem_singleton.1 hp
      exact hS
  · obtain rfl := List.mem_singleton.1 hp
    exact hS

end Grammar

/-- The name of a floor: a single ideograph. -/
def ideograph (n : Nat) : Text := [.char (Char.ofNat (0x4E00 + n))]

theorem toNat_ofNat_ideograph {n : Nat} (hn : n ≤ 0x5000) :
    (Char.ofNat (0x4E00 + n)).toNat = 0x4E00 + n := by
  rw [Char.toNat_ofNat, if_pos (.inl (by omega))]

theorem names_ideograph {height : Nat} (hheight : height ≤ 0x5000) : Names ideograph height where
  inj m hm n hn heq := by
    have hchar : Char.ofNat (0x4E00 + m) = Char.ofNat (0x4E00 + n) := by
      simpa [ideograph] using heq
    have hnat := congrArg Char.toNat hchar
    rw [toNat_ofNat_ideograph (Nat.le_trans hm hheight),
      toNat_ofNat_ideograph (Nat.le_trans hn hheight)] at hnat
    exact Nat.add_left_cancel hnat
  fresh n hn hmem := by
    have hsmall : ∀ s ∈ reserved, ∀ c ∈ s, c.toNat < 0x4E00 := by decide
    have hchar := hsmall _ hmem _ (List.mem_singleton_self _)
    rw [CodePoint.toNat, toNat_ofNat_ideograph (Nat.le_trans hn hheight)] at hchar
    omega

/-- **A definition that is read but cannot be searched**: whatever the target and the budget,
the search fails on 256 floors of 16 copies. -/
theorem Grammar.attempt_tower_of_ideographs :
    Grammar.ofJson (tower ideograph 16 256).toJson = .ok (tower ideograph 16 256) ∧
    ∀ target budget cancel, ∃ n, (tower ideograph 16 256).attempt target budget cancel =
      .error (.value (.outOfRange n)) := by
  have h : Names ideograph 256 := names_ideograph (by decide)
  have hrange : Cost.range ≤ 16 ^ 256 := by decide +kernel
  refine ⟨ofJson_toJson_tower h, fun target budget cancel => ?_⟩
  obtain ⟨n, _, hattempt⟩ := attempt_tower h hrange target budget cancel
  exact ⟨n, hattempt⟩

end FormalMachines.ContextFree
