import FieldGeometry.Moment
import FieldGeometry.Proofs.Exact
import FieldGeometry.Proofs.PinReadings

/-!
# Blank inputs and lists of one value

**Blank inputs.**  A value is blank when it is no value, an empty list, or a list of one blank
value.  Every reader of a pin, those of the displays included, reads a blank value like a pin that
is not there.  Hence it makes no difference to a component which blank value it is given, nor
whether blank values stand at the end of its inputs (`evaluate_blank`).

**Lists of one value.**  The readers read a list of one value as that value, except those of the
displays: a display looks at the length of its section and of its grid before it looks inside.  Put
into lists of their own, all other inputs leave a component as it is, while a section of three
values or more, and a grid of two or more, is refused (`evaluate_wrapAt`).
-/

namespace FieldGeometry

/-- A value that stands for a missing one. -/
inductive Value.Blank {α δ : Type} [Scalar α] : Value α δ → Prop
  | null : Blank .null
  | empty : Blank (.list [])
  | single {v : Value α δ} (h : Blank v) : Blank (.list [v])

namespace Pin

variable {α δ : Type} [Scalar α]

/-- The pin holds a list of at least `n` values. -/
def HoldsList (n : Nat) (p : Pin α δ) : Prop :=
  ∃ items : List (Value α δ), p = some (.list items) ∧ n ≤ items.length

theorem not_holdsList_none (n : Nat) : ¬ HoldsList n (none : Pin α δ) := by
  rintro ⟨items, h, -⟩
  cases h

theorem holdsList_list_iff
    {n : Nat}
    {items : List (Value α δ)} :
    HoldsList n (some (.list items)) ↔ n ≤ items.length := by
  constructor
  · rintro ⟨items', h, hlength⟩
    cases h
    exact hlength
  · exact fun hlength => ⟨items, rfl, hlength⟩

theorem not_holdsList_wrap
    {n : Nat}
    (hn : 2 ≤ n)
    (v : Value α δ) :
    ¬ HoldsList n (some (.list [v])) := by
  rw [holdsList_list_iff, List.length_singleton]
  omega

theorem not_holdsList_of_blank
    {n : Nat}
    (hn : 2 ≤ n)
    {v : Value α δ}
    (h : v.Blank) :
    ¬ HoldsList n (some v) := by
  cases h with
  | null =>
      rintro ⟨items, h, -⟩
      cases h
  | empty =>
      rw [holdsList_list_iff, List.length_nil]
      omega
  | single _ =>
      exact not_holdsList_wrap hn _

theorem leaves_wrap (v : Value α δ) : (Value.list [v]).leaves = v.leaves := by
  rw [Value.leaves, Value.leavesOf, Value.leavesOf, List.append_nil]

/-- A list of one value is read as that value. -/
theorem alike_wrap (v : Value α δ) : Alike (some (.list [v])) (some v) where
  unwrap := by
    show content (.list [v]) = content v
    rw [content]
  points := by
    show pointsOf (.list [v]) = pointsOf v
    rw [pointsOf, pointsOf, leaves_wrap]
  frames := by
    show Except.map _ (List.mapM _ (Value.list [v]).leaves) = Except.map _ (List.mapM _ v.leaves)
    rw [leaves_wrap]
  fields := by
    show fieldsOf (.list [v]) = fieldsOf v
    rw [fieldsOf, fieldsOf, leaves_wrap]
  region := by
    show regionOf (.list [v]) = regionOf v
    rw [regionOf]

/-- A blank value is read as no value at all. -/
theorem alike_of_blank
    {v : Value α δ}
    (h : v.Blank) :
    Alike (some v) none := by
  induction h with
  | null => exact ⟨rfl, rfl, rfl, rfl, rfl⟩
  | empty => exact ⟨rfl, rfl, rfl, rfl, rfl⟩
  | single _ ih => exact (alike_wrap _).trans ih

section Displays

/-- Short of three values, a section is read as a plane. -/
theorem displaySection_of_not_holdsList
    {p : Pin α δ}
    (h : ¬ HoldsList 3 p) :
    displaySection p = (frame p).map fun f? => (f?.map Section.centred).getD .standard := by
  unfold displaySection
  split
  · rename_i a b c rest
    exact absurd ⟨_, rfl, by simp⟩ h
  · cases frame p with
    | error failure => rfl
    | ok f? =>
        cases f? with
        | none => rfl
        | some f => rfl

/-- Short of two values, a grid is read as one count. -/
theorem displayGrid_of_not_holdsList
    {p : Pin α δ}
    (h : ¬ HoldsList 2 p) :
    displayGrid p = (count p Grid.standard.uCount).map fun n => .clamped n n := by
  unfold displayGrid
  split
  · rename_i u v rest
    exact absurd ⟨_, rfl, by simp⟩ h
  · cases count p Grid.standard.uCount with
    | error failure => rfl
    | ok n => rfl

variable {p q : Pin α δ} (h : Alike p q)
include h

theorem Alike.displaySection
    (hp : ¬ HoldsList 3 p)
    (hq : ¬ HoldsList 3 q) :
    displaySection p = displaySection q := by
  rw [displaySection_of_not_holdsList hp, displaySection_of_not_holdsList hq, h.frame]

theorem Alike.displayGrid
    (hp : ¬ HoldsList 2 p)
    (hq : ¬ HoldsList 2 q) :
    displayGrid p = displayGrid q := by
  rw [displayGrid_of_not_holdsList hp, displayGrid_of_not_holdsList hq, h.count]

end Displays

section Wrapped

/-- Inside a list of its own, a list of several values is no single value. -/
theorem unwrap_wrap_list
    {items : List (Value α δ)}
    (h : 2 ≤ items.length) :
    unwrap (some (.list [.list items])) = some (.list items) := by
  show content (.list [.list items]) = some (.list items)
  rw [content]
  cases items with
  | nil => exact absurd h (by simp)
  | cons u rest =>
      cases rest with
      | nil => exact absurd h (by simp)
      | cons v rest => rfl

theorem displaySection_wrap_list
    {items : List (Value α δ)}
    (h : 2 ≤ items.length) :
    displaySection (some (.list [.list items])) = .error (.mismatch .plane .list) := by
  have hframe : frame (some (.list [.list items])) = .error (.mismatch .plane .list) := by
    unfold frame
    rw [unwrap_wrap_list h]
    rfl
  rw [displaySection_of_not_holdsList (not_holdsList_wrap (by decide) _), hframe]
  rfl

theorem displayGrid_wrap_list
    {items : List (Value α δ)}
    (h : 2 ≤ items.length) :
    displayGrid (some (.list [.list items])) = .error (.mismatch .number .list) := by
  have hcount : count (some (.list [.list items])) Grid.standard.uCount =
      .error (.mismatch .number .list) := by
    unfold count number
    rw [unwrap_wrap_list h]
    rfl
  rw [displayGrid_of_not_holdsList (not_holdsList_wrap (by decide) _), hcount]
  rfl

end Wrapped

/-- The pin is empty or holds a blank value. -/
def IsBlank (p : Pin α δ) : Prop :=
  ∀ v, p = some v → v.Blank

theorem IsBlank.alike_none
    {p : Pin α δ}
    (h : IsBlank p) :
    Alike p none := by
  cases p with
  | none => exact .refl none
  | some v => exact alike_of_blank (h v rfl)

theorem IsBlank.not_holdsList
    {p : Pin α δ}
    (h : IsBlank p)
    {n : Nat}
    (hn : 2 ≤ n) :
    ¬ HoldsList n p := by
  cases p with
  | none => exact not_holdsList_none n
  | some v => exact not_holdsList_of_blank hn (h v rfl)

end Pin

namespace Component

variable {α δ : Type} [Scalar α]

section Blanks

/-- Two lists of inputs differ only at pins that are blank in both. -/
def SameButBlank (inputs inputs' : List (Value α δ)) : Prop :=
  ∀ i : Nat, inputs[i]? = inputs'[i]? ∨ (Pin.IsBlank inputs[i]? ∧ Pin.IsBlank inputs'[i]?)

variable {inputs inputs' : List (Value α δ)}

theorem SameButBlank.alike
    (h : SameButBlank inputs inputs')
    (i : Nat) :
    Pin.Alike inputs[i]? inputs'[i]? := by
  rcases h i with hsame | ⟨hblank, hblank'⟩
  · rw [hsame]
    exact .refl _
  · exact hblank.alike_none.trans hblank'.alike_none.symm

/-- Inputs that differ in blank values only give the same outputs or the same failure. -/
theorem evaluate_of_sameButBlank
    (c : Component)
    (h : SameButBlank inputs inputs') :
    c.evaluate inputs = c.evaluate inputs' := by
  refine evaluate_congr h.alike c (fun _ => ?_) (fun _ => ?_)
  · rcases h 1 with hsame | ⟨hblank, hblank'⟩
    · rw [hsame]
    · exact (h.alike 1).displaySection (hblank.not_holdsList (by decide))
        (hblank'.not_holdsList (by decide))
  · rcases h 2 with hsame | ⟨hblank, hblank'⟩
    · rw [hsame]
    · exact (h.alike 2).displayGrid (hblank.not_holdsList (by decide))
        (hblank'.not_holdsList (by decide))

theorem sameButBlank_replaced
    (before after : List (Value α δ))
    {b b' : Value α δ}
    (hb : b.Blank)
    (hb' : b'.Blank) :
    SameButBlank (before ++ b :: after) (before ++ b' :: after) := by
  intro i
  by_cases hi : i = before.length
  · right
    subst hi
    simpa [Pin.IsBlank] using ⟨hb, hb'⟩
  · exact Or.inl (getElem?_around_of_ne hi b b' after)

theorem sameButBlank_appended
    (inputs : List (Value α δ))
    {blanks : List (Value α δ)}
    (h : ∀ b ∈ blanks, b.Blank) :
    SameButBlank (inputs ++ blanks) inputs := by
  intro i
  rcases Nat.lt_or_ge i inputs.length with hlt | hge
  · left
    rw [List.getElem?_append_left hlt]
  · right
    rw [List.getElem?_append_right hge, List.getElem?_eq_none hge]
    refine ⟨fun v hv => h v (List.mem_of_getElem? hv), ?_⟩
    intro v hv
    cases hv

end Blanks

/-- **Missing inputs.**  Which blank value stands at a pin makes no difference to any component, and
neither do blank values at the end of the inputs. -/
theorem evaluate_blank (c : Component) :
    (∀ (before after : List (Value α δ)) (b b' : Value α δ), b.Blank → b'.Blank →
      c.evaluate (before ++ b :: after) = c.evaluate (before ++ b' :: after)) ∧
    (∀ inputs blanks : List (Value α δ), (∀ b ∈ blanks, b.Blank) →
      c.evaluate (inputs ++ blanks) = c.evaluate inputs) := by
  constructor
  · intro before after b b' hb hb'
    exact c.evaluate_of_sameButBlank (sameButBlank_replaced before after hb hb')
  · intro inputs blanks h
    exact c.evaluate_of_sameButBlank (sameButBlank_appended inputs h)

/-- A field line without a number of steps, said in two ways, and with two more blank inputs. -/
theorem evaluate_blank_steps :
    (.list [.null] : Value ℝ Moment).Blank ∧ (.list [] : Value ℝ Moment).Blank ∧
    (fieldLine.evaluate
        ([.field .empty, .point Point.origin, .list [.null], .number 1] : List (Value ℝ Moment)) =
      fieldLine.evaluate [.field .empty, .point Point.origin, .list [], .number 1]) ∧
    (fieldLine.evaluate
        ([.field .empty, .point Point.origin, .null, .list [.list [.null]]] :
          List (Value ℝ Moment)) =
      fieldLine.evaluate [.field .empty, .point Point.origin]) := by
  have hsingle : (.list [.null] : Value ℝ Moment).Blank := .single .null
  have hempty : (.list [] : Value ℝ Moment).Blank := .empty
  refine ⟨hsingle, hempty, ?_, ?_⟩
  · exact (evaluate_blank fieldLine).1 [.field .empty, .point Point.origin] [.number 1] _ _
      hsingle hempty
  · refine (evaluate_blank fieldLine).2 [.field .empty, .point Point.origin]
      [.null, .list [.list [.null]]] ?_
    simpa using ⟨Value.Blank.null, hsingle.single⟩

section Wrapping

/-- The inputs with the one at a pin put into a list of its own. -/
def wrapAt (i : Nat) (inputs : List (Value α δ)) : List (Value α δ) :=
  inputs.modify i fun v => .list [v]

theorem getElem?_wrapAt_self (i : Nat) (inputs : List (Value α δ)) :
    (wrapAt i inputs)[i]? = inputs[i]?.map fun v => .list [v] := by
  rw [wrapAt, List.getElem?_modify_eq]
  rfl

theorem getElem?_wrapAt_of_ne
    {i j : Nat}
    (h : i ≠ j)
    (inputs : List (Value α δ)) :
    (wrapAt i inputs)[j]? = inputs[j]? := by
  rw [wrapAt, List.getElem?_modify_ne _ _ h]

theorem alike_wrapAt (i j : Nat) (inputs : List (Value α δ)) :
    Pin.Alike (wrapAt i inputs)[j]? inputs[j]? := by
  by_cases h : i = j
  · subst h
    rw [getElem?_wrapAt_self]
    cases inputs[i]? with
    | none => exact .refl none
    | some v => exact Pin.alike_wrap v
  · rw [getElem?_wrapAt_of_ne h]
    exact .refl _

/-- The pins of a display that are read by their length: a section of at least three values and a
grid of at least two. -/
def ReadsLength (c : Component) (i : Nat) (p : Pin α δ) : Prop :=
  c.isDisplay = true ∧ (i = 1 ∧ Pin.HoldsList 3 p ∨ i = 2 ∧ Pin.HoldsList 2 p)

theorem not_holdsList_wrapAt
    {n : Nat}
    (hn : 2 ≤ n)
    (i : Nat)
    (inputs : List (Value α δ)) :
    ¬ Pin.HoldsList n (wrapAt i inputs)[i]? := by
  rw [getElem?_wrapAt_self]
  cases inputs[i]? with
  | none => exact Pin.not_holdsList_none n
  | some v => exact Pin.not_holdsList_wrap hn v

section Read

variable {c : Component} {i : Nat} {inputs : List (Value α δ)}

theorem displaySection_wrapAt
    (h : i = 1 → ¬ Pin.HoldsList 3 inputs[1]?) :
    Pin.displaySection (wrapAt i inputs)[1]? = Pin.displaySection inputs[1]? := by
  by_cases hi : i = 1
  · subst hi
    exact (alike_wrapAt 1 1 inputs).displaySection (not_holdsList_wrapAt (by decide) 1 inputs)
      (h rfl)
  · rw [getElem?_wrapAt_of_ne hi]

theorem displayGrid_wrapAt
    (h : i = 2 → ¬ Pin.HoldsList 2 inputs[2]?) :
    Pin.displayGrid (wrapAt i inputs)[2]? = Pin.displayGrid inputs[2]? := by
  by_cases hi : i = 2
  · subst hi
    exact (alike_wrapAt 2 2 inputs).displayGrid (not_holdsList_wrapAt (by decide) 2 inputs)
      (h rfl)
  · rw [getElem?_wrapAt_of_ne hi]

/-- An input that is not read by its length may be put into a list of its own. -/
theorem evaluate_wrapAt_of_not_readsLength
    (h : ¬ c.ReadsLength i inputs[i]?) :
    c.evaluate (wrapAt i inputs) = c.evaluate inputs := by
  refine evaluate_congr (fun j => alike_wrapAt i j inputs) c (fun hc => ?_) (fun hc => ?_)
  · apply displaySection_wrapAt
    rintro rfl hlist
    exact h ⟨hc, Or.inl ⟨rfl, hlist⟩⟩
  · apply displayGrid_wrapAt
    rintro rfl hlist
    exact h ⟨hc, Or.inr ⟨rfl, hlist⟩⟩

end Read

section Refused

variable {c : Component} {inputs : List (Value α δ)} {failure : Failure}

theorem display_error_of_section
    (h : Pin.displaySection inputs[1]? = .error failure) :
    ∃ first, display c inputs = .error first := by
  unfold display
  rw [h]
  cases needField c inputs[0]? with
  | error first => exact ⟨first, rfl⟩
  | ok field => exact ⟨failure, rfl⟩

theorem display_error_of_grid
    (h : Pin.displayGrid inputs[2]? = .error failure) :
    ∃ first, display c inputs = .error first := by
  unfold display
  rw [h]
  cases needField c inputs[0]? with
  | error first => exact ⟨first, rfl⟩
  | ok field =>
      cases Pin.displaySection inputs[1]? with
      | error first => exact ⟨first, rfl⟩
      | ok onSection => exact ⟨failure, rfl⟩

/-- A display that cannot be sampled is not shown. -/
theorem evaluate_error_of_display
    (hc : c.isDisplay = true)
    (h : display c inputs = .error failure) :
    c.evaluate inputs = .error failure := by
  cases c with
  | tensorDisplay => rw [evaluate, tensorDisplayAt, h]; rfl
  | scalarDisplay => rw [evaluate, scalarDisplayAt, h]; rfl
  | directionDisplay => rw [evaluate, directionDisplayAt, h]; rfl
  | perpendicularDisplay => rw [evaluate, perpendicularDisplayAt, h]; rfl
  | _ => exact absurd hc (by decide)

/-- An input that is read by its length is refused inside a list of its own. -/
theorem evaluate_wrapAt_of_readsLength
    {i : Nat}
    (h : c.ReadsLength i inputs[i]?) :
    ∃ failure, c.evaluate (wrapAt i inputs) = .error failure := by
  obtain ⟨hc, ⟨rfl, items, hitems, hlength⟩ | ⟨rfl, items, hitems, hlength⟩⟩ := h
  · have hsection : Pin.displaySection (wrapAt 1 inputs)[1]? = .error (.mismatch .plane .list) := by
      rw [getElem?_wrapAt_self, hitems]
      exact Pin.displaySection_wrap_list (by omega)
    obtain ⟨failure, hfailure⟩ := display_error_of_section hsection
    exact ⟨failure, evaluate_error_of_display hc hfailure⟩
  · have hgrid : Pin.displayGrid (wrapAt 2 inputs)[2]? = .error (.mismatch .number .list) := by
      rw [getElem?_wrapAt_self, hitems]
      exact Pin.displayGrid_wrap_list hlength
    obtain ⟨failure, hfailure⟩ := display_error_of_grid hgrid
    exact ⟨failure, evaluate_error_of_display hc hfailure⟩

end Refused

end Wrapping

/-- **Lists of one value.**  An input that is put into a list of its own gives the same outputs or
the same failure, whatever the component and the pin, unless it is the section of a display with
three values or more, or its grid with two or more.  These are refused inside a list of their
own. -/
theorem evaluate_wrapAt
    (c : Component)
    (i : Nat)
    (inputs : List (Value α δ)) :
    (¬ c.ReadsLength i inputs[i]? → c.evaluate (wrapAt i inputs) = c.evaluate inputs) ∧
    (c.ReadsLength i inputs[i]? → ∃ failure, c.evaluate (wrapAt i inputs) = .error failure) :=
  ⟨evaluate_wrapAt_of_not_readsLength, evaluate_wrapAt_of_readsLength⟩

/-- A field, the standard section, and a value for the grid. -/
noncomputable def gridInputs (grid : Value ℝ Moment) : List (Value ℝ Moment) :=
  [.field .empty, .null, grid]

/-- One count may be put into a list of its own, two counts may not. -/
theorem evaluate_wrapAt_grid :
    (¬ scalarDisplay.ReadsLength 2 (gridInputs (.number 1))[2]? ∧
      scalarDisplay.evaluate (wrapAt 2 (gridInputs (.number 1))) =
        scalarDisplay.evaluate (gridInputs (.number 1))) ∧
    (scalarDisplay.ReadsLength 2 (gridInputs (.numbers [1, 1]))[2]? ∧
      ∃ failure,
        scalarDisplay.evaluate (wrapAt 2 (gridInputs (.numbers [1, 1]))) = .error failure) := by
  have hone : ¬ scalarDisplay.ReadsLength 2 (gridInputs (.number 1))[2]? := by
    rintro ⟨-, ⟨h, -⟩ | ⟨-, items, h, -⟩⟩
    · cases h
    · cases h
  have htwo : scalarDisplay.ReadsLength 2 (gridInputs (.numbers [1, 1]))[2]? :=
    ⟨rfl, Or.inr ⟨rfl, _, rfl, le_refl 2⟩⟩
  exact ⟨⟨hone, (evaluate_wrapAt scalarDisplay 2 _).1 hone⟩,
    ⟨htwo, (evaluate_wrapAt scalarDisplay 2 _).2 htwo⟩⟩

/-- A field and a section of three points. -/
noncomputable def cornerInputs : List (Value ℝ Moment) :=
  [.field .empty, .points [⟨0, 0, 0⟩, ⟨1, 0, 0⟩, ⟨0, 1, 0⟩]]

/-- A section of three points is shown, and refused inside a list of its own. -/
theorem wrapAt_corners_refused :
    (∃ outputs, scalarDisplay.evaluate cornerInputs = .ok outputs) ∧
    scalarDisplay.evaluate (wrapAt 1 cornerInputs) = .error (.mismatch .plane .list) := by
  constructor
  · exact ⟨_, rfl⟩
  · rfl

end Component

end FieldGeometry
