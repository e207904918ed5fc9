import FieldGeometry.Registry
import Mathlib.Data.List.DropRight
import Mathlib.Tactic

/-!
# The keys of names

A name is stored without blanks around it and in lowercase.  Read again, a stored name is its own
key (`nameKey_nameKey`).

**Lowercase.**  Every character of a lowercase text is its own lowercase form and no capital sigma
(`Plain`), and a text of such characters stays as it is, so lowercase is reached in one pass
(`lower_lower`).  That no character has a lowercase form with another lowercase form is a property
of the table: the characters that change and the forms they change to are disjoint
(`mask_changing_and_mask_forms`).

**Blanks.**  No lowercase form is blank unless its character is, so lowercase puts no blanks at the
ends of a text (`Trimmed.lowerAfter`).
-/

namespace FieldGeometry

namespace Text

section Trimming

variable {drop : Char → Bool} {cs : List Char}

/-- Neither end of the list has the property. -/
structure Trimmed (drop : Char → Bool) (cs : List Char) : Prop where
  head : ∀ c, cs.head? = some c → ¬ drop c = true
  last : ∀ c, cs.getLast? = some c → ¬ drop c = true

theorem trimBoth_eq (drop : Char → Bool) (cs : List Char) :
    trimBoth drop cs = (cs.dropWhile drop).rdropWhile drop := by
  rfl

theorem Trimmed.trimBoth_eq_self (h : Trimmed drop cs) : trimBoth drop cs = cs := by
  have hhead : cs.dropWhile drop = cs := by
    rw [List.dropWhile_eq_self_iff]
    intro hpos
    exact h.head cs[0] (List.head?_eq_getElem? ▸ List.getElem?_eq_getElem hpos)
  rw [trimBoth_eq, hhead, List.rdropWhile_eq_self_iff]
  intro hne
  exact h.last (cs.getLast hne) (List.getLast?_eq_some_getLast hne)

theorem trimmed_trimBoth (drop : Char → Bool) (cs : List Char) :
    Trimmed drop (trimBoth drop cs) := by
  rw [trimBoth_eq]
  constructor
  · -- what is left of the front after the back was dropped is the front
    intro c hc
    obtain ⟨dropped, happend⟩ := List.rdropWhile_prefix drop (cs.dropWhile drop)
    have hfront : (cs.dropWhile drop).head? = some c := by
      rw [← happend, List.head?_append, hc]
      rfl
    have hnot := List.head?_dropWhile_not drop cs
    rw [hfront] at hnot
    simpa using hnot
  · intro c hc
    have hne : (cs.dropWhile drop).rdropWhile drop ≠ [] := by
      intro hnil
      rw [hnil] at hc
      cases hc
    rw [List.getLast?_eq_some_getLast hne, Option.some_inj] at hc
    rw [← hc]
    exact List.rdropWhile_last_not drop _ hne

end Trimming

section Forms

/-- The characters of a run, by their numbers. -/
def CaseRun.members (r : CaseRun) : List Nat :=
  List.range' r.first ((r.last - r.first) / r.step + 1) r.step

theorem CaseRun.mem_members
    {r : CaseRun}
    {n : Nat}
    (h : r.holds n = true) :
    n ∈ r.members := by
  simp only [CaseRun.holds, Bool.and_eq_true, decide_eq_true_eq, beq_iff_eq] at h
  obtain ⟨⟨hfirst, hlast⟩, hstep⟩ := h
  rw [members, List.mem_range']
  refine ⟨(n - r.first) / r.step, ?_, ?_⟩
  · exact Nat.lt_succ_of_le (Nat.div_le_div_right (by omega))
  · rw [Nat.mul_div_cancel' (Nat.dvd_of_mod_eq_zero hstep)]
    omega

/-- The number of the character that a run changes another to. -/
def CaseRun.form (r : CaseRun) (n : Nat) : Nat :=
  ((n : Int) + r.shift).toNat

/-- Blanks, by their numbers. -/
def blanks : List Nat :=
  List.range' 9 5 ++ List.range' 0x2000 11 ++
    [0x20, 0x85, 0xA0, 0x1680, 0x2028, 0x2029, 0x202F, 0x205F, 0x3000]

/-- Blanks, and the characters that lowercase changes. -/
def changing : List Nat :=
  blanks ++ List.range' 0x41 26 ++ [0x130, 0x3A3] ++ caseRuns.flatMap CaseRun.members

/-- The characters that others are changed to. -/
def forms : List Nat :=
  List.range' 0x61 26 ++ [0x69, 0x307, 0x3C2, 0x3C3] ++
    caseRuns.flatMap fun r => r.members.map r.form

/-- The number whose binary digits are set at the members of a list. -/
def mask : List Nat → Nat
  | [] => 0
  | n :: ns => mask ns ||| 1 <<< n

theorem testBit_mask (ns : List Nat) (n : Nat) : (mask ns).testBit n = decide (n ∈ ns) := by
  induction ns with
  | nil =>
      simp [mask]
  | cons m ns ih =>
      rw [mask, Nat.testBit_or, ih, Nat.one_shiftLeft, Nat.testBit_two_pow]
      by_cases hmn : m = n
      · simp [hmn]
      · simp [hmn, Ne.symm hmn]

/-- The table leads from characters that change to others.  Each list is compared as one number: by
pairs there are two million cases. -/
theorem mask_changing_and_mask_forms : mask changing &&& mask forms = 0 := by
  decide +kernel

theorem not_mem_changing_of_mem_forms
    {n : Nat}
    (h : n ∈ forms) :
    n ∉ changing := by
  intro hchanging
  have hbit : (mask changing &&& mask forms).testBit n = true := by
    rw [Nat.testBit_and, testBit_mask, testBit_mask]
    simp [h, hchanging]
  rw [mask_changing_and_mask_forms, Nat.zero_testBit] at hbit
  exact Bool.false_ne_true hbit

end Forms

section Plain

variable {c d : Char}

/-- The character is its own lowercase form. -/
structure Plain (c : Char) : Prop where
  ne_sigma : c ≠ capitalSigma
  lowerChar_eq : lowerChar c = [c]

theorem mem_blanks_of_isBlank (h : isBlank c = true) : c.toNat ∈ blanks := by
  simp only [isBlank, Bool.or_eq_true, Bool.and_eq_true, decide_eq_true_eq, beq_iff_eq] at h
  simp only [blanks, List.mem_append, List.mem_range'_1, List.mem_cons, List.not_mem_nil, or_false]
  omega

/-- The lowercase form of a character is the character itself, or it is among the forms. -/
theorem lowerChar_cases (c : Char) :
    lowerChar c = [c] ∨
      lowerChar c ≠ [] ∧ ∀ d ∈ lowerChar c, ∃ n ∈ forms, d = Char.ofNat n := by
  unfold lowerChar
  dsimp only
  split_ifs with hascii hcapital hdotted
  · right
    refine ⟨List.cons_ne_nil _ _, ?_⟩
    intro d hd
    refine ⟨c.toNat + 0x20, ?_, List.mem_singleton.mp hd⟩
    simp only [Bool.and_eq_true, decide_eq_true_eq] at hcapital
    simp only [forms, List.mem_append, List.mem_range'_1]
    omega
  · exact Or.inl rfl
  · right
    refine ⟨List.cons_ne_nil _ _, ?_⟩
    intro d hd
    simp only [List.mem_cons, List.not_mem_nil, or_false] at hd
    rcases hd with rfl | rfl
    · exact ⟨0x69, by simp [forms], rfl⟩
    · exact ⟨0x307, by simp [forms], rfl⟩
  · cases hrun : caseRuns.find? fun r => r.holds c.toNat with
    | none =>
        exact Or.inl rfl
    | some r =>
        right
        refine ⟨List.cons_ne_nil _ _, ?_⟩
        intro d hd
        refine ⟨r.form c.toNat, ?_, List.mem_singleton.mp hd⟩
        have hholds : r.holds c.toNat = true := by
          simpa using List.find?_some hrun
        have hmember := CaseRun.mem_members hholds
        apply List.mem_append_right
        rw [List.mem_flatMap]
        exact ⟨r, List.mem_of_find?_eq_some hrun, List.mem_map_of_mem hmember⟩

theorem plain_of_not_mem_changing (h : c.toNat ∉ changing) : Plain c := by
  simp only [changing, List.mem_append, not_or, List.mem_range'_1, List.mem_cons, List.not_mem_nil,
    or_false, List.mem_flatMap, not_exists, not_and] at h
  obtain ⟨⟨⟨-, hcapital⟩, hdotted, hsigma⟩, hruns⟩ := h
  constructor
  · rintro rfl
    exact hsigma rfl
  · have hnone : (caseRuns.find? fun r => r.holds c.toNat) = none := by
      rw [List.find?_eq_none]
      intro r hr hholds
      exact hruns r hr (CaseRun.mem_members hholds)
    unfold lowerChar
    dsimp only
    rw [hnone, if_neg hdotted]
    split_ifs with hascii hletter
    · simp only [Bool.and_eq_true, decide_eq_true_eq] at hletter
      omega
    · rfl
    · rfl

theorem not_isBlank_of_not_mem_changing (h : c.toNat ∉ changing) : ¬ isBlank c = true := by
  intro hblank
  apply h
  simp only [changing, List.mem_append]
  exact Or.inl (Or.inl (Or.inl (mem_blanks_of_isBlank hblank)))

/-- A form is not changed again and not blank.  A number that is no character stands for the
character with the number zero, which is neither. -/
theorem not_mem_changing_ofNat
    {n : Nat}
    (h : n ∈ forms) :
    (Char.ofNat n).toNat ∉ changing := by
  by_cases hvalid : n.isValidChar
  · rw [Char.ofNat, dif_pos hvalid]
    exact not_mem_changing_of_mem_forms h
  · rw [Char.ofNat, dif_neg hvalid]
    decide +kernel

theorem plain_ofNat
    {n : Nat}
    (h : n ∈ forms) :
    Plain (Char.ofNat n) ∧ ¬ isBlank (Char.ofNat n) = true :=
  ⟨plain_of_not_mem_changing (not_mem_changing_ofNat h),
    not_isBlank_of_not_mem_changing (not_mem_changing_ofNat h)⟩

/-- What a character is changed to is plain, and blank only if the character is. -/
theorem plain_of_mem_lowerChar
    (hsigma : c ≠ capitalSigma)
    (hd : d ∈ lowerChar c) :
    Plain d ∧ (isBlank d = true → isBlank c = true) := by
  rcases lowerChar_cases c with hself | ⟨-, hforms⟩
  · rw [hself, List.mem_singleton] at hd
    rw [hd]
    exact ⟨⟨hsigma, hself⟩, id⟩
  · obtain ⟨n, hn, rfl⟩ := hforms d hd
    obtain ⟨hplain, hblank⟩ := plain_ofNat hn
    exact ⟨hplain, fun hd => absurd hd hblank⟩

theorem plain_lowerSigma (before after : List Char) :
    Plain (lowerSigma before after) ∧ ¬ isBlank (lowerSigma before after) = true := by
  unfold lowerSigma
  split_ifs
  · exact plain_ofNat (by simp [forms])
  · exact plain_ofNat (by simp [forms])

end Plain

section Lowercase

/-- The lowercase form of a character between others. -/
def formBetween (before : List Char) (c : Char) (after : List Char) : List Char :=
  if c = capitalSigma then [lowerSigma before after] else lowerChar c

theorem lowerAfter_cons (before : List Char) (c : Char) (rest : List Char) :
    lowerAfter before (c :: rest) =
      formBetween before c rest ++ lowerAfter (c :: before) rest := by
  rfl

theorem formBetween_ne_nil (before : List Char) (c : Char) (after : List Char) :
    formBetween before c after ≠ [] := by
  unfold formBetween
  split_ifs
  · exact List.cons_ne_nil _ _
  · rcases lowerChar_cases c with hself | ⟨hne, -⟩
    · rw [hself]
      exact List.cons_ne_nil _ _
    · exact hne

theorem plain_of_mem_formBetween
    {before after : List Char}
    {c d : Char}
    (hd : d ∈ formBetween before c after) :
    Plain d ∧ (isBlank d = true → isBlank c = true) := by
  unfold formBetween at hd
  split_ifs at hd with hsigma
  · obtain ⟨hplain, hblank⟩ := plain_lowerSigma before after
    rw [List.mem_singleton.mp hd]
    exact ⟨hplain, fun hd => absurd hd hblank⟩
  · exact plain_of_mem_lowerChar hsigma hd

theorem plain_of_mem_lowerAfter
    {before cs : List Char}
    {d : Char}
    (hd : d ∈ lowerAfter before cs) :
    Plain d := by
  induction cs generalizing before with
  | nil =>
      exact absurd hd List.not_mem_nil
  | cons c rest ih =>
      rw [lowerAfter_cons, List.mem_append] at hd
      rcases hd with hd | hd
      · exact (plain_of_mem_formBetween hd).1
      · exact ih hd

/-- Plain characters stay as they are. -/
theorem lowerAfter_of_plain
    {cs : List Char}
    (h : ∀ c ∈ cs, Plain c)
    (before : List Char) :
    lowerAfter before cs = cs := by
  induction cs generalizing before with
  | nil =>
      rfl
  | cons c rest ih =>
      obtain ⟨hc, hrest⟩ := List.forall_mem_cons.mp h
      rw [lowerAfter_cons, formBetween, if_neg hc.ne_sigma, hc.lowerChar_eq, ih hrest]
      rfl

/-- **Lowercase is reached in one pass.** -/
theorem lower_lower (s : String) : lower (lower s) = lower s := by
  unfold lower
  rw [String.toList_ofList, lowerAfter_of_plain fun c hc => plain_of_mem_lowerAfter hc]

/-- The last character comes from the last character. -/
theorem exists_getLast?_of_lowerAfter
    {before cs : List Char}
    {d : Char}
    (hd : (lowerAfter before cs).getLast? = some d) :
    ∃ c, cs.getLast? = some c ∧ (isBlank d = true → isBlank c = true) := by
  induction cs generalizing before with
  | nil =>
      cases hd
  | cons c rest ih =>
      rw [lowerAfter_cons, List.getLast?_append] at hd
      cases hlast : (lowerAfter (c :: before) rest).getLast? with
      | none =>
          rw [hlast] at hd
          have hrest : rest = [] := by
            cases rest with
            | nil =>
                rfl
            | cons e rest =>
                rw [List.getLast?_eq_none_iff, lowerAfter_cons] at hlast
                exact absurd (List.append_eq_nil_iff.mp hlast).1 (formBetween_ne_nil _ _ _)
          rw [hrest]
          exact ⟨c, rfl, (plain_of_mem_formBetween (List.mem_of_getLast? hd)).2⟩
      | some e =>
          rw [hlast] at hd
          obtain ⟨last, hlast, hblank⟩ := ih (hlast.trans hd)
          refine ⟨last, ?_, hblank⟩
          rw [List.getLast?_cons, hlast]
          rfl

/-- Lowercase puts no blanks at the ends. -/
theorem Trimmed.lowerAfter
    {cs : List Char}
    (h : Trimmed isBlank cs)
    (before : List Char) :
    Trimmed isBlank (lowerAfter before cs) := by
  constructor
  · intro d hd
    cases cs with
    | nil =>
        cases hd
    | cons c rest =>
        rw [lowerAfter_cons, List.head?_append_of_ne_nil _ (formBetween_ne_nil _ _ _)] at hd
        have hblank := (plain_of_mem_formBetween (List.mem_of_head? hd)).2
        exact fun hd => h.head c rfl (hblank hd)
  · intro d hd
    obtain ⟨c, hc, hblank⟩ := exists_getLast?_of_lowerAfter hd
    exact fun hd => h.last c hc (hblank hd)

theorem trim_of_trimmed
    {s : String}
    (h : Trimmed isBlank s.toList) :
    trim s = s := by
  rw [trim, h.trimBoth_eq_self, String.ofList_toList]

theorem trimmed_lower_trim (s : String) : Trimmed isBlank (lower (trim s)).toList := by
  unfold lower trim
  rw [String.toList_ofList, String.toList_ofList]
  exact (trimmed_trimBoth isBlank s.toList).lowerAfter []

end Lowercase

end Text

/-- **A stored name is its own key.** -/
theorem nameKey_nameKey (name : String) : nameKey (nameKey name) = nameKey name := by
  unfold nameKey
  rw [Text.trim_of_trimmed (Text.trimmed_lower_trim name), Text.lower_lower]

end FieldGeometry
