import FieldGeometry.Proofs.FrameAlignment
import FieldGeometry.Proofs.FrameTurns

/-!
# Flipping and rotating frames

A flip exchanges the axes of the plane, reverses either of them, and lets the normal follow.  Each
of the three steps is half a turn about a line of the plane: exchanging the axes about the line
between them, reversing one of them about the other.  Half a turn keeps orthonormal axes orthonormal
and reverses the normal, so a flip of an orthonormal frame is the half turns that it asks for, one
after the other (`flip_eq`), and its normal is reversed when their number is odd.

Turning a frame twice is turning it by the sum of the angles (`turned_turned`), and half a turn
about the first axis reverses the sense of turning (`halfTurnAboutX_turned`).  A rotation is a turn
but for angles below the tolerance, which it leaves out; rotations therefore add up as far as none
of the angles is left out.
-/

namespace FieldGeometry

open Real

/-- The vector, or its reverse. -/
def Vec.reversedIf {α : Type} [Scalar α] (reverse : Bool) (v : Vec α) : Vec α :=
  if reverse then -v else v

namespace Frame

section HalfTurns

variable {α : Type} [Scalar α]

/-- The frame turned half a turn about the line between its first two axes. -/
def halfTurnAboutDiagonal (f : Frame α) : Frame α :=
  ⟨f.origin, f.yAxis, f.xAxis, -f.zAxis⟩

/-- The frame, changed if asked for. -/
def changedIf (f : Frame α) (change : Bool) (turn : Frame α → Frame α) : Frame α :=
  if change then turn f else f

/-- The frame after the half turns that a flip asks for. -/
def flipped (f : Frame α) (reverseX reverseY swap : Bool) : Frame α :=
  ((f.changedIf swap halfTurnAboutDiagonal).changedIf reverseX halfTurnAboutY).changedIf reverseY
    halfTurnAboutX

end HalfTurns

section Flips

variable {f : Frame ℝ}

theorem halfTurnAboutX_halfTurnAboutX (f : Frame ℝ) :
    f.halfTurnAboutX.halfTurnAboutX = f := by
  simp [halfTurnAboutX]

theorem halfTurnAboutY_halfTurnAboutY (f : Frame ℝ) :
    f.halfTurnAboutY.halfTurnAboutY = f := by
  simp [halfTurnAboutY]

theorem halfTurnAboutDiagonal_halfTurnAboutDiagonal (f : Frame ℝ) :
    f.halfTurnAboutDiagonal.halfTurnAboutDiagonal = f := by
  simp [halfTurnAboutDiagonal]

/-- Half turns about the axes of the plane may change places. -/
theorem halfTurnAboutX_halfTurnAboutY (f : Frame ℝ) :
    f.halfTurnAboutX.halfTurnAboutY = f.halfTurnAboutY.halfTurnAboutX := by
  rfl

theorem halfTurnAboutDiagonal_orthonormal
    (hf : f.Orthonormal) :
    f.halfTurnAboutDiagonal.Orthonormal := by
  have hreverse : f.yAxis.cross f.xAxis = -f.zAxis := by
    rw [← hf.x_cross_y]
    ext <;> simp [Vec.cross_eq, mul_comm]
  refine ⟨hf.length_y, hf.length_x, ?_, ?_, ?_, ?_, hreverse⟩
  · exact (Vec.length_neg _).trans hf.length_z
  · exact (Vec.dot_comm _ _).trans hf.x_dot_y
  · show f.xAxis.dot (-f.zAxis) = 0
    rw [Vec.dot_neg, Vec.dot_comm, hf.z_dot_x, neg_zero]
  · show (-f.zAxis).dot f.yAxis = 0
    rw [Vec.neg_dot, Vec.dot_comm, hf.y_dot_z, neg_zero]

theorem changedIf_orthonormal
    {turn : Frame ℝ → Frame ℝ}
    (hturn : ∀ {g : Frame ℝ}, g.Orthonormal → (turn g).Orthonormal)
    (hf : f.Orthonormal)
    (change : Bool) :
    (f.changedIf change turn).Orthonormal := by
  cases change with
  | false => exact hf
  | true => exact hturn hf

theorem flipped_orthonormal
    (hf : f.Orthonormal)
    (reverseX reverseY swap : Bool) :
    (f.flipped reverseX reverseY swap).Orthonormal := by
  have hswapped := changedIf_orthonormal halfTurnAboutDiagonal_orthonormal hf swap
  have hreversed := changedIf_orthonormal halfTurnAboutY_orthonormal hswapped reverseX
  exact changedIf_orthonormal halfTurnAboutX_orthonormal hreversed reverseY

/-- The axes of the plane of an orthonormal frame determine it. -/
theorem ofAxes_cross_of_orthonormal
    (hf : f.Orthonormal)
    (fallback : Vec ℝ) :
    ofAxes f.origin f.xAxis f.yAxis ((f.xAxis.cross f.yAxis).unitOr fallback) = f := by
  rw [hf.x_cross_y, Vec.unitOr_of_length_eq_one _ hf.length_z]
  exact ofAxes_of_orthonormal _ hf

/-- Flipping an orthonormal frame makes the half turns. -/
theorem flip_eq
    (hf : f.Orthonormal)
    (reverseX reverseY swap : Bool) :
    f.flip reverseX reverseY swap = f.flipped reverseX reverseY swap := by
  have hkept := ofAxes_cross_of_orthonormal (flipped_orthonormal hf reverseX reverseY swap) f.zAxis
  -- whichever flags are set, the hints are the axes after the half turns
  cases swap <;> cases reverseX <;> cases reverseY <;> exact hkept

/-- The axes after a flip: those of the plane are exchanged first and reversed then, and the normal
is reversed when an odd number of these is done. -/
theorem flip_axes
    (hf : f.Orthonormal)
    (reverseX reverseY swap : Bool) :
    f.flip reverseX reverseY swap =
      ⟨f.origin,
        (if swap then f.yAxis else f.xAxis).reversedIf reverseX,
        (if swap then f.xAxis else f.yAxis).reversedIf reverseY,
        if Even ([reverseX, reverseY, swap].count true) then f.zAxis else -f.zAxis⟩ := by
  rw [flip_eq hf]
  cases swap <;> cases reverseX <;> cases reverseY <;>
    simp [flipped, changedIf, halfTurnAboutDiagonal, halfTurnAboutX, halfTurnAboutY,
      Vec.reversedIf, Nat.even_iff]

/-- Reversing axes twice restores the frame. -/
theorem flip_flip_of_not_swap
    (hf : f.Orthonormal)
    (reverseX reverseY : Bool) :
    (f.flip reverseX reverseY false).flip reverseX reverseY false = f := by
  rw [flip_eq hf, flip_eq (flipped_orthonormal hf _ _ _)]
  cases reverseX with
  | false =>
      cases reverseY with
      | false => rfl
      | true => exact halfTurnAboutX_halfTurnAboutX f
  | true =>
      cases reverseY with
      | false => exact halfTurnAboutY_halfTurnAboutY f
      | true =>
          show f.halfTurnAboutY.halfTurnAboutX.halfTurnAboutY.halfTurnAboutX = f
          rw [halfTurnAboutX_halfTurnAboutY, halfTurnAboutY_halfTurnAboutY,
            halfTurnAboutX_halfTurnAboutX]

/-- Exchanging axes twice restores the frame. -/
theorem flip_flip_of_swap
    (hf : f.Orthonormal) :
    (f.flip false false true).flip false false true = f := by
  rw [flip_eq hf, flip_eq (flipped_orthonormal hf _ _ _)]
  exact halfTurnAboutDiagonal_halfTurnAboutDiagonal f

end Flips

section Turns

/-- No angle, or one that is not below the tolerance. -/
def IsResolvedAngle (angle : ℝ) : Prop :=
  angle = 0 ∨ Scalar.tolerance ≤ |angle|

variable {f : Frame ℝ} (a b : ℝ)

theorem turned_zero (f : Frame ℝ) : f.turned 0 = f := by
  simp [turned]

/-- Turning twice is turning by the sum of the angles. -/
theorem turned_turned (f : Frame ℝ) : (f.turned a).turned b = f.turned (a + b) := by
  have hx : cos b • (cos a • f.xAxis + sin a • f.yAxis) +
      sin b • (cos a • f.yAxis - sin a • f.xAxis) =
      cos (a + b) • f.xAxis + sin (a + b) • f.yAxis := by
    rw [cos_add, sin_add]
    module
  have hy : cos b • (cos a • f.yAxis - sin a • f.xAxis) -
      sin b • (cos a • f.xAxis + sin a • f.yAxis) =
      cos (a + b) • f.yAxis - sin (a + b) • f.xAxis := by
    rw [cos_add, sin_add]
    module
  simp only [turned, hx, hy]

/-- Seen from the other side of the plane a turn goes the other way. -/
theorem halfTurnAboutX_turned (f : Frame ℝ) :
    (f.halfTurnAboutX.turned a).halfTurnAboutX = f.turned (-a) := by
  have hx : cos a • f.xAxis + sin a • -f.yAxis = cos (-a) • f.xAxis + sin (-a) • f.yAxis := by
    rw [cos_neg, sin_neg]
    module
  have hy : -(cos a • -f.yAxis - sin a • f.xAxis) =
      cos (-a) • f.yAxis - sin (-a) • f.xAxis := by
    rw [cos_neg, sin_neg]
    module
  simp only [halfTurnAboutX, turned, hx, hy, neg_neg]

variable {a b} (hf : f.Orthonormal)
include hf

theorem rotate_of_isResolvedAngle (ha : IsResolvedAngle a) : f.rotate a = f.turned a := by
  rcases ha with rfl | hlarge
  · rw [turned_zero, rotate_of_lt]
    rw [abs_zero]
    exact Scalar.tolerance_pos
  · exact rotate_of_le hf hlarge

/-- Rotations add up as far as no angle is left out. -/
theorem rotate_rotate
    (ha : IsResolvedAngle a)
    (hb : IsResolvedAngle b)
    (hab : IsResolvedAngle (a + b)) :
    (f.rotate a).rotate b = f.rotate (a + b) := by
  rw [rotate_of_isResolvedAngle hf ha, rotate_of_isResolvedAngle (turned_orthonormal hf a) hb,
    rotate_of_isResolvedAngle hf hab, turned_turned]

/-- Reversing the second axis before and after a rotation reverses its sense, whatever the angle. -/
theorem flip_rotate_flip (angle : ℝ) :
    ((f.flip false true false).rotate angle).flip false true false = f.rotate (-angle) := by
  have hover := halfTurnAboutX_orthonormal hf
  rw [flip_eq hf, flip_eq (rotate_orthonormal (flipped_orthonormal hf _ _ _) angle)]
  show (f.halfTurnAboutX.rotate angle).halfTurnAboutX = f.rotate (-angle)
  rcases lt_or_ge |angle| Scalar.tolerance with hsmall | hlarge
  · rw [rotate_of_lt hsmall, rotate_of_lt (by rwa [abs_neg]), halfTurnAboutX_halfTurnAboutX]
  · rw [rotate_of_le hover hlarge, rotate_of_le hf (by rwa [abs_neg]), halfTurnAboutX_turned]

end Turns

/-- **Rotating and flipping.**  Of an orthonormal frame a rotation keeps the origin and the normal,
and rotations add up as far as none of the angles, that of the sum included, lies below the
tolerance without being zero.  A flip keeps the origin, exchanges the axes of the plane first and
reverses them then, exactly as it is asked to, and its normal is the frame's or the reverse of it,
by the number of flags that are set.  So reversing axes undoes itself, as does exchanging them, and
between two reversals of the second axis a rotation goes the other way. -/
theorem rotate_flip_laws
    {f : Frame ℝ}
    (hf : f.Orthonormal) :
    (∀ angle, (f.rotate angle).origin = f.origin ∧ (f.rotate angle).zAxis = f.zAxis) ∧
    (∀ a b, IsResolvedAngle a → IsResolvedAngle b → IsResolvedAngle (a + b) →
      (f.rotate a).rotate b = f.rotate (a + b)) ∧
    (∀ reverseX reverseY swap,
      f.flip reverseX reverseY swap =
        ⟨f.origin,
          (if swap then f.yAxis else f.xAxis).reversedIf reverseX,
          (if swap then f.xAxis else f.yAxis).reversedIf reverseY,
          if Even ([reverseX, reverseY, swap].count true) then f.zAxis else -f.zAxis⟩) ∧
    (∀ reverseX reverseY,
      (f.flip reverseX reverseY false).flip reverseX reverseY false = f) ∧
    (f.flip false false true).flip false false true = f ∧
    ∀ angle, ((f.flip false true false).rotate angle).flip false true false = f.rotate (-angle) := by
  refine ⟨rotate_keeps hf, ?_, flip_axes hf, flip_flip_of_not_swap hf, flip_flip_of_swap hf,
    flip_rotate_flip hf⟩
  intro a b ha hb hab
  exact rotate_rotate hf ha hb hab

/-- Two quarter turns of the world frame reverse the axes of its plane, a quarter turn between two
reversals of the second axis goes back, and exchanging the axes and reversing the first keeps the
normal. -/
theorem rotate_flip_laws_world :
    (world : Frame ℝ).Orthonormal ∧
    IsResolvedAngle (π / 2) ∧ IsResolvedAngle (π / 2 + π / 2) ∧
    ((world : Frame ℝ).rotate (π / 2)).rotate (π / 2) = (world : Frame ℝ).halfTurn ∧
    (((world : Frame ℝ).flip false true false).rotate (π / 2)).flip false true false =
      (world : Frame ℝ).rotate (-(π / 2)) ∧
    (world : Frame ℝ).flip true false true =
      ⟨Point.origin, -Vec.basisY, Vec.basisX, Vec.basisZ⟩ := by
  have hresolved : ∀ angle : ℝ, 1 ≤ angle → IsResolvedAngle angle := by
    intro angle h
    refine Or.inr (le_trans (le_of_lt Scalar.tolerance_lt_one) ?_)
    rwa [abs_of_nonneg (le_trans zero_le_one h)]
  have hquarter : IsResolvedAngle (π / 2) := hresolved _ (by linarith [two_le_pi])
  have hhalf : IsResolvedAngle (π / 2 + π / 2) := hresolved _ (by linarith [two_le_pi])
  obtain ⟨-, hadd, hflip, -, -, hback⟩ := rotate_flip_laws world_orthonormal
  refine ⟨world_orthonormal, hquarter, hhalf, ?_, hback (π / 2), hflip true false true⟩
  rw [hadd _ _ hquarter hquarter hhalf, rotate_of_isResolvedAngle world_orthonormal hhalf,
    add_halves]
  simp [turned, halfTurn]

end Frame

end FieldGeometry
