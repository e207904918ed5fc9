import FieldGeometry.Text.EditDistance
import Mathlib.Order.Bounds.Basic
import Mathlib.Tactic

/-!
# Edits

One text is turned into another by edits: a character is put in, taken out or replaced, and all
others are kept.  `Edits s t n` says that `n` edits lead from `s` to `t`.  A function of texts is an
edit distance if it gives the least number of edits (`IsEditDistance`), as the one that is computed
row by row does (`editDistance_isEditDistance`).

Its rows read both texts from the front, so their entries are the distances of
prefixes, which are written here with the nearest character first.  One entry follows from the three
beside it (`IsDistance.cons_cons`), hence a row from the row before it (`IsRow.nextRow`), hence the
last row from the first (`isDistance_distanceFrom`).
-/

namespace FieldGeometry

namespace Text

/-- So many characters put in, taken out and replaced turn one list into another. -/
inductive Edits : List Char → List Char → Nat → Prop
  | done : Edits [] [] 0
  | keep {s t : List Char} {n : Nat} (c : Char) (h : Edits s t n) : Edits (c :: s) (c :: t) n
  | replace {s t : List Char} {n : Nat} (c d : Char) (h : Edits s t n) :
      Edits (c :: s) (d :: t) (n + 1)
  | putIn {s t : List Char} {n : Nat} (d : Char) (h : Edits s t n) : Edits s (d :: t) (n + 1)
  | takeOut {s t : List Char} {n : Nat} (c : Char) (h : Edits s t n) : Edits (c :: s) t (n + 1)

namespace Edits

variable {s t u v : List Char} {m n : Nat}

/-- Edits of two parts one after the other are edits of the whole. -/
theorem append
    (h : Edits s t m)
    (g : Edits u v n) :
    Edits (s ++ u) (t ++ v) (m + n) := by
  induction h with
  | done =>
      rw [Nat.zero_add]
      exact g
  | keep c _ ih =>
      exact ih.keep c
  | replace c d _ ih =>
      rw [Nat.add_right_comm]
      exact ih.replace c d
  | putIn d _ ih =>
      rw [Nat.add_right_comm]
      exact ih.putIn d
  | takeOut c _ ih =>
      rw [Nat.add_right_comm]
      exact ih.takeOut c

/-- Read backwards, texts are as many edits apart. -/
theorem reverse (h : Edits s t n) : Edits s.reverse t.reverse n := by
  induction h with
  | done =>
      exact done
  | keep c _ ih =>
      simp only [List.reverse_cons]
      exact ih.append (done.keep c)
  | replace c d _ ih =>
      simp only [List.reverse_cons]
      exact ih.append (done.replace c d)
  | putIn d _ ih =>
      rw [List.reverse_cons]
      simpa using ih.append (done.putIn d)
  | takeOut c _ ih =>
      rw [List.reverse_cons]
      simpa using ih.append (done.takeOut c)

theorem reverse_iff : Edits s.reverse t.reverse n ↔ Edits s t n := by
  constructor
  · intro h
    simpa using h.reverse
  · exact reverse

/-- From nothing to a text all characters are put in. -/
theorem of_nil (t : List Char) : Edits [] t t.length := by
  induction t with
  | nil =>
      exact done
  | cons d t ih =>
      exact ih.putIn d

/-- From a text to nothing all characters are taken out. -/
theorem to_nil (s : List Char) : Edits s [] s.length := by
  induction s with
  | nil =>
      exact done
  | cons c s ih =>
      exact ih.takeOut c

/-- No edit changes the length by more than one. -/
theorem length_le (h : Edits s t n) : t.length ≤ s.length + n ∧ s.length ≤ t.length + n := by
  induction h with
  | done =>
      simp
  | keep c _ ih =>
      simp only [List.length_cons]
      omega
  | replace c d _ ih =>
      simp only [List.length_cons]
      omega
  | putIn d _ ih =>
      simp only [List.length_cons]
      omega
  | takeOut c _ ih =>
      simp only [List.length_cons]
      omega

end Edits

/-- The least number of edits that turn one list into another. -/
def IsDistance (s t : List Char) (n : Nat) : Prop :=
  IsLeast {k | Edits s t k} n

/-- A function that gives the least number of edits for any two texts. -/
def IsEditDistance (distance : String → String → Nat) : Prop :=
  ∀ s t, IsDistance s.toList t.toList (distance s t)

section Distances

variable {s t : List Char}

theorem isDistance_nil_left (t : List Char) : IsDistance [] t t.length := by
  refine ⟨Edits.of_nil t, ?_⟩
  intro n h
  simpa using h.length_le.1

theorem isDistance_nil_right (s : List Char) : IsDistance s [] s.length := by
  refine ⟨Edits.to_nil s, ?_⟩
  intro n h
  simpa using h.length_le.2

theorem isDistance_reverse_iff {n : Nat} : IsDistance s.reverse t.reverse n ↔ IsDistance s t n := by
  simp only [IsDistance, Edits.reverse_iff]

/-- **One entry.**  The distance of two texts follows from the distances without the first character
of the one, of the other and of both. -/
theorem IsDistance.cons_cons
    {c d : Char}
    {left above corner : Nat}
    (hleft : IsDistance (c :: s) t left)
    (habove : IsDistance s (d :: t) above)
    (hcorner : IsDistance s t corner) :
    IsDistance (c :: s) (d :: t)
      (min (min (left + 1) (above + 1)) (if c = d then corner else corner + 1)) := by
  constructor
  · -- each of the three numbers is reached
    have hlast : Edits (c :: s) (d :: t) (if c = d then corner else corner + 1) := by
      split_ifs with hcd
      · exact hcd ▸ hcorner.1.keep c
      · exact hcorner.1.replace c d
    show Edits (c :: s) (d :: t) _
    rcases min_choice (min (left + 1) (above + 1)) (if c = d then corner else corner + 1) with h | h
    · rw [h]
      rcases min_choice (left + 1) (above + 1) with h | h
      · rw [h]
        exact hleft.1.putIn d
      · rw [h]
        exact habove.1.takeOut c
    · rw [h]
      exact hlast
  · -- and the first edit bounds the number of edits by one of them
    intro n h
    cases h with
    | keep _ h =>
        have hle := hcorner.2 h
        rw [if_pos rfl]
        omega
    | replace _ _ h =>
        have hle := hcorner.2 h
        split_ifs <;> omega
    | putIn _ h =>
        have hle := hleft.2 h
        omega
    | takeOut _ h =>
        have hle := habove.2 h
        omega

end Distances

/-- The row of `s`: after what was read of the target, its distances to all longer prefixes. -/
inductive IsRow (s : List Char) : List Char → List Char → List Nat → Prop
  | done (read : List Char) : IsRow s read [] []
  | next {read rest : List Char} {d : Char} {n : Nat} {row : List Nat}
      (hhere : IsDistance s (d :: read) n) (hrest : IsRow s (d :: read) rest row) :
      IsRow s read (d :: rest) (n :: row)

section Rows

variable {s read rest : List Char} {row : List Nat}

/-- The last entry of a row is the distance to the whole target. -/
theorem IsRow.getLast
    {n : Nat}
    (h : IsRow s read rest row)
    (hstart : IsDistance s read n) :
    IsDistance s (rest.reverse ++ read) (row.getLast?.getD n) := by
  induction h generalizing n with
  | done read =>
      exact hstart
  | next hhere _ ih =>
      rw [List.getLast?_cons, Option.getD_some, List.reverse_cons, List.append_assoc]
      exact ih hhere

/-- **One row.**  A further character turns the row of a prefix into the row of the longer one. -/
theorem IsRow.nextRow
    {corner left : Nat}
    (h : IsRow s read rest row)
    (c : Char)
    (hcorner : IsDistance s read corner)
    (hleft : IsDistance (c :: s) read left) :
    IsRow (c :: s) read rest (nextRow c rest row corner left) := by
  induction h generalizing corner left with
  | done read =>
      exact .done read
  | next hhere _ ih =>
      have hnew := hleft.cons_cons hhere hcorner
      exact .next hnew (ih hhere hnew)

/-- The row of nothing counts the characters of the target. -/
theorem isRow_range (read rest : List Char) :
    IsRow [] read rest ((List.range rest.length).map (· + (read.length + 1))) := by
  induction rest generalizing read with
  | nil =>
      exact .done read
  | cons d rest ih =>
      have hcounts : (List.range (d :: rest).length).map (· + (read.length + 1)) =
          (d :: read).length ::
            (List.range rest.length).map (· + ((d :: read).length + 1)) := by
        rw [List.length_cons, List.range_succ_eq_map, List.map_cons, List.map_map, List.length_cons]
        congr 1
        · omega
        · apply List.map_congr_left
          intro k _
          simp only [Function.comp]
          omega
      rw [hcounts]
      exact .next (isDistance_nil_left _) (ih (d :: read))

/-- **All rows.**  Reading on from the row of a prefix gives the distance of the whole text. -/
theorem isDistance_distanceFrom
    {target : List Char}
    (rest : List Char)
    (hrow : IsRow s [] target row) :
    IsDistance (rest.reverse ++ s) target.reverse (distanceFrom target rest s.length row) := by
  induction rest generalizing s row with
  | nil =>
      simpa [distanceFrom] using hrow.getLast (isDistance_nil_right s)
  | cons c rest ih =>
      have hnext := hrow.nextRow c (isDistance_nil_right s) (isDistance_nil_right (c :: s))
      rw [List.reverse_cons, List.append_assoc]
      exact ih hnext

end Rows

/-- **Row by row** the least number of edits is computed. -/
theorem editDistance_isEditDistance : IsEditDistance editDistance := by
  intro s t
  rw [← isDistance_reverse_iff, ← List.append_nil s.toList.reverse]
  exact isDistance_distanceFrom s.toList (isRow_range [] t.toList)

end Text

end FieldGeometry
