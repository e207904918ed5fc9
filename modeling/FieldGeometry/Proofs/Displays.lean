import FieldGeometry.Moment
import FieldGeometry.Proofs.Exact
import FieldGeometry.Proofs.PinReadings
import FieldGeometry.Proofs.PointLists
import FieldGeometry.Proofs.SectionGrid

/-!
# The displays agree

The four displays read a field, a section and a grid, evaluate the field at the points of the grid
and list an entry for each of them.  They differ in the entry only, so at the same position their
entries are made of one and the same evaluation (`Field.getElem?_map_onGrid`).  Tensor Display shows
all of it, as Evaluate Field does for a single point; the others show the point with one part of it.

A grid that is read from a pin has between one and `Grid.maxCount` points along each side, whatever
counts were given.
-/

namespace FieldGeometry

namespace Pin

variable {α δ : Type} [Scalar α]

theorem eq_clamped_of_displayGrid
    {pin : Pin α δ}
    {grid : Grid}
    (h : displayGrid pin = .ok grid) :
    ∃ u v : Nat, grid = .clamped u v := by
  unfold displayGrid at h
  split at h
  · obtain ⟨u, -, h⟩ := exists_of_bind_eq_ok h
    obtain ⟨v, -, h⟩ := exists_of_bind_eq_ok h
    cases h
    exact ⟨u, v, rfl⟩
  · obtain ⟨n, -, h⟩ := exists_of_bind_eq_ok h
    cases h
    exact ⟨n, n, rfl⟩

/-- The counts of a grid that is read from a pin have been held within bounds. -/
theorem counts_of_displayGrid
    {pin : Pin α δ}
    {grid : Grid}
    (h : displayGrid pin = .ok grid) :
    (1 ≤ grid.uCount ∧ grid.uCount ≤ Grid.maxCount) ∧
      (1 ≤ grid.vCount ∧ grid.vCount ≤ Grid.maxCount) := by
  obtain ⟨u, v, rfl⟩ := eq_clamped_of_displayGrid h
  exact ⟨⟨Grid.one_le_clampCount u, Grid.clampCount_le u⟩,
    ⟨Grid.one_le_clampCount v, Grid.clampCount_le v⟩⟩

end Pin

namespace Field

variable {α δ : Type} [Scalar α] {β : Type} (f : Field α) (s : Section α) (grid : Grid)

theorem length_map_onGrid (entry : Evaluation α → β) :
    ((f.onGrid s grid).map entry).length = grid.uCount * grid.vCount := by
  rw [List.length_map, f.length_onGrid]

/-- At one position every list of entries tells of the same evaluation. -/
theorem getElem?_map_onGrid
    (entry : Evaluation α → β)
    {k : Nat}
    (h : k < grid.uCount * grid.vCount) :
    ((f.onGrid s grid).map entry)[k]? =
      some (entry (f.evaluate (s.pointAt grid (k / grid.vCount) (k % grid.vCount)))) := by
  rw [List.getElem?_map, f.getElem?_onGrid s grid h, Option.map_some]

end Field

namespace Component

variable {α δ : Type} [Scalar α]

/-- Evaluate Field for one point gives the entry of a tensor display for it. -/
theorem evaluateField_point
    (f : Field α)
    {p : Point α}
    (h : p.isFinite = true) :
    evaluateField.evaluate ([.field f, .point p] : List (Value α δ)) =
      .ok [("T", tensorEntry (f.evaluate p)), ("S", .number (f.evaluate p).strength)] := by
  exact evaluateField_of_point rfl (Pin.points_point h) []

section Displayed

variable {inputs : List (Value α δ)} {f : Field α} {s : Section α} {grid : Grid}
  (hfield : Pin.field inputs[0]? = .ok (some f))
  (hsection : Pin.displaySection inputs[1]? = .ok s)
  (hgrid : Pin.displayGrid inputs[2]? = .ok grid)

include hfield hsection hgrid

theorem display_eq (c : Component) : display c inputs = .ok ⟨s, f.onGrid s grid⟩ := by
  simp only [display, needField, Pin.require, hfield, hsection, hgrid]
  rfl

theorem tensorDisplay_eq :
    tensorDisplay.evaluate inputs = .ok [("D", .list ((f.onGrid s grid).map tensorEntry))] := by
  show tensorDisplayAt inputs = _
  rw [tensorDisplayAt, display_eq hfield hsection hgrid]
  rfl

theorem scalarDisplay_eq :
    scalarDisplay.evaluate inputs = .ok [("D", .list ((f.onGrid s grid).map fun e =>
      .list [.point e.point, .number e.magnitude]))] := by
  show scalarDisplayAt inputs = _
  rw [scalarDisplayAt, display_eq hfield hsection hgrid]
  rfl

theorem directionDisplay_eq :
    directionDisplay.evaluate inputs = .ok [("D", .list ((f.onGrid s grid).map fun e =>
      .list [.point e.point, .vector e.direction]))] := by
  show directionDisplayAt inputs = _
  rw [directionDisplayAt, display_eq hfield hsection hgrid]
  rfl

theorem perpendicularDisplay_eq
    {positive negative : Option (Color α)}
    (hpositive : Pin.color inputs[3]? = .ok positive)
    (hnegative : Pin.color inputs[4]? = .ok negative) :
    perpendicularDisplay.evaluate inputs = .ok [("D", .list ((f.onGrid s grid).map fun e =>
      .list [.point e.point, .color (alignmentColor (positive.getD positiveColor)
        (negative.getD negativeColor) s.frame.zAxis e)]))] := by
  show perpendicularDisplayAt inputs = _
  simp only [perpendicularDisplayAt, display_eq hfield hsection hgrid, hpositive, hnegative]
  rfl

end Displayed

/-- **The displays agree.**  Take inputs that are read as a field, a section and a grid.  All four
displays succeed, Perpendicular Display with colours that are read, and list an entry for each point
of the grid, row after row, which begins with the point.  A scalar display repeats the magnitude and
a direction display the direction of the tensor display's entry, and that entry is what Evaluate
Field gives for the field and the point, where the point is finite. -/
theorem displays_agree
    {α δ : Type}
    [Scalar α]
    {inputs : List (Value α δ)}
    {f : Field α}
    {s : Section α}
    {grid : Grid}
    (hfield : Pin.field inputs[0]? = .ok (some f))
    (hsection : Pin.displaySection inputs[1]? = .ok s)
    (hgrid : Pin.displayGrid inputs[2]? = .ok grid) :
    (1 ≤ grid.uCount ∧ grid.uCount ≤ 1024) ∧ (1 ≤ grid.vCount ∧ grid.vCount ≤ 1024) ∧
    ∃ tensors scalars directions : List (Value α δ),
      tensorDisplay.evaluate inputs = .ok [("D", .list tensors)] ∧
      scalarDisplay.evaluate inputs = .ok [("D", .list scalars)] ∧
      directionDisplay.evaluate inputs = .ok [("D", .list directions)] ∧
      (tensors.length = grid.uCount * grid.vCount ∧
        scalars.length = grid.uCount * grid.vCount ∧
        directions.length = grid.uCount * grid.vCount) ∧
      (∀ (k : Nat) (p : Point α), k < grid.uCount * grid.vCount →
        p = s.pointAt grid (k / grid.vCount) (k % grid.vCount) →
          (∃ (vector direction : Vec α) (magnitude : α) (principal : List (Value α δ)),
            tensors[k]? = some (.list [.point p, .vector vector, .number magnitude,
              .vector direction, .list principal]) ∧
            scalars[k]? = some (.list [.point p, .number magnitude]) ∧
            directions[k]? = some (.list [.point p, .vector direction])) ∧
          (p.isFinite = true → ∃ (tensor : Value α δ) (strength : α),
            tensors[k]? = some tensor ∧
            evaluateField.evaluate [.field f, .point p] =
              .ok [("T", tensor), ("S", .number strength)])) ∧
      (∀ positive negative : Option (Color α),
        Pin.color inputs[3]? = .ok positive → Pin.color inputs[4]? = .ok negative →
          ∃ colors : List (Value α δ),
            perpendicularDisplay.evaluate inputs = .ok [("D", .list colors)] ∧
            colors.length = grid.uCount * grid.vCount ∧
            ∀ (k : Nat) (p : Point α), k < grid.uCount * grid.vCount →
              p = s.pointAt grid (k / grid.vCount) (k % grid.vCount) →
                ∃ color : Color α, colors[k]? = some (.list [.point p, .color color])) := by
  have hlength := fun entry : Evaluation α → Value α δ => f.length_map_onGrid s grid entry
  obtain ⟨hu, hv⟩ := Pin.counts_of_displayGrid hgrid
  refine ⟨hu, hv, _, _, _, tensorDisplay_eq hfield hsection hgrid,
    scalarDisplay_eq hfield hsection hgrid, directionDisplay_eq hfield hsection hgrid,
    ⟨hlength _, hlength _, hlength _⟩, ?_, ?_⟩
  · rintro k p hk rfl
    have hentry := fun entry : Evaluation α → Value α δ => f.getElem?_map_onGrid s grid entry hk
    refine ⟨⟨_, _, _, _, hentry _, hentry _, hentry _⟩, fun hfinite => ?_⟩
    exact ⟨_, _, hentry _, evaluateField_point f hfinite⟩
  · intro positive negative hpositive hnegative
    refine ⟨_, perpendicularDisplay_eq hfield hsection hgrid hpositive hnegative, hlength _, ?_⟩
    rintro k p hk rfl
    exact ⟨_, f.getElem?_map_onGrid s grid _ hk⟩

section Exact

/-- A whole number at a pin is read as a count. -/
theorem count_natCast
    {δ : Type}
    {n : ℕ}
    (hn : n ≤ 18446744073709551615)
    (fallback : ℕ) :
    Pin.count (some (.number (n : ℝ)) : Pin ℝ δ) fallback = .ok n := by
  have hround : Scalar.round (n : ℝ) = n := by
    rw [Scalar.round_exact, if_pos (Nat.cast_nonneg n)]
    have hfloor : ⌊(n : ℝ) + 1 / 2⌋ = (n : ℤ) := by
      rw [Int.floor_eq_iff]
      constructor
      · push_cast
        linarith
      · push_cast
        linarith
    rw [hfloor, Int.cast_natCast]
  have hcount : Pin.toCount (n : ℝ) = n := by
    rw [Pin.toCount, hround, Scalar.maxNum_exact, max_eq_left (Nat.cast_nonneg n),
      Scalar.toCount_exact, Nat.floor_natCast, min_eq_left hn]
  show Except.ok (Pin.toCount (n : ℝ)) = _
  rw [hcount]

/-- A field that points along the normal of the standard section everywhere. -/
noncomputable def upward : Field ℝ :=
  .ofSource (.ofModel (.uniform Vec.basisZ))

/-- The field `upward` on the standard section, with a value for the grid. -/
noncomputable def upwardInputs (counts : Value ℝ Moment) : List (Value ℝ Moment) :=
  [.field upward, .null, counts]

theorem displays_agree_upward :
    Pin.field (upwardInputs (.numbers [2, 3]))[0]? = .ok (some upward) ∧
    Pin.displaySection (upwardInputs (.numbers [2, 3]))[1]? = .ok .standard ∧
    Pin.displayGrid (upwardInputs (.numbers [2, 3]))[2]? = .ok ⟨2, 3⟩ ∧
    ∃ tensors scalars directions colors : List (Value ℝ Moment),
      tensorDisplay.evaluate (upwardInputs (.numbers [2, 3])) = .ok [("D", .list tensors)] ∧
      scalarDisplay.evaluate (upwardInputs (.numbers [2, 3])) = .ok [("D", .list scalars)] ∧
      directionDisplay.evaluate (upwardInputs (.numbers [2, 3])) = .ok [("D", .list directions)] ∧
      perpendicularDisplay.evaluate (upwardInputs (.numbers [2, 3])) =
        .ok [("D", .list colors)] ∧
      tensors.length = 6 ∧ colors.length = 6 ∧
      ∃ (tensor : Value ℝ Moment) (magnitude strength : ℝ),
        tensors[5]? = some tensor ∧
        scalars[5]? =
          some (.list [.point (Section.standard.pointAt ⟨2, 3⟩ 1 2), .number magnitude]) ∧
        evaluateField.evaluate
            [.field upward, .point (Section.standard.pointAt ⟨2, 3⟩ 1 2)] =
          .ok [("T", tensor), ("S", .number strength)] := by
  have hfield : Pin.field (upwardInputs (.numbers [2, 3]))[0]? = .ok (some upward) := rfl
  have hsection : Pin.displaySection (upwardInputs (.numbers [2, 3]))[1]? = .ok .standard := rfl
  have hgrid : Pin.displayGrid (upwardInputs (.numbers [2, 3]))[2]? = .ok ⟨2, 3⟩ := by
    have htwo := count_natCast (δ := Moment) (show 2 ≤ 18446744073709551615 by norm_num)
      Grid.standard.uCount
    have hthree := count_natCast (δ := Moment) (show 3 ≤ 18446744073709551615 by norm_num) 2
    rw [Nat.cast_ofNat] at htwo hthree
    show Pin.displayGrid (some (.list [.number 2, .number 3]) : Pin ℝ Moment) = _
    simp only [Pin.displayGrid, htwo, hthree, bind, Except.bind]
    rfl
  obtain ⟨-, -, tensors, scalars, directions, htensors, hscalars, hdirections, ⟨hlength, -, -⟩,
    hentries, hcolors⟩ := displays_agree hfield hsection hgrid
  obtain ⟨colors, hperpendicular, hcount, -⟩ := hcolors none none rfl rfl
  obtain ⟨⟨_, _, magnitude, _, -, hscalar, -⟩, hevaluated⟩ := hentries 5 _ (by norm_num) rfl
  obtain ⟨tensor, strength, htensor, hpoint⟩ := hevaluated rfl
  exact ⟨hfield, hsection, hgrid, tensors, scalars, directions, colors, htensors, hscalars,
    hdirections, hperpendicular, hlength, hcount, tensor, magnitude, strength, htensor, hscalar,
    hpoint⟩

end Exact

end Component

end FieldGeometry
