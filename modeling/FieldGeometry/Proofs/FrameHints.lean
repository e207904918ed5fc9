import FieldGeometry.Moment
import FieldGeometry.Proofs.PlaneCoordinates

/-!
# Which hint decides a frame

`Frame.ofAxes` repairs three hints in two rounds, each with a fallback of its own: a missing hint
for the second axis is made from the first, and one along the normal gives way to the first again.
Seen from the result, in exact arithmetic, the rounds are one choice between three cases.

**The choice.**  The normal is the direction of its hint.  Where the hint for the second axis has a
part across the normal (`SecondDecides`), this part is the direction of the second axis.  Where it
has none, the first axis is the direction of the part of its own hint across the normal
(`FirstDecides`), and where that fails too it is the unit vector that `Vec.orthogonal` finds.  The
point of the case analysis is `xAxis_of_not_secondDecides`: both ways in which the hint for the
second axis may fail lead to the same first axis.

**Consequences.**  An orthonormal frame is its own repair, and so it is found again from its origin
and its first two axes: Construct Plane undoes Deconstruct Plane.
-/

namespace FieldGeometry

namespace Vec

/-- The unit vector along a vector. -/
noncomputable def normalized (v : Vec ℝ) : Vec ℝ :=
  v.length⁻¹ • v

section Normalized

variable {v w z : Vec ℝ}

theorem normalized_of_length_eq_one (h : v.length = 1) : v.normalized = v := by
  rw [normalized, h, inv_one, one_smul]

/-- Stretching a vector keeps its direction. -/
theorem normalized_smul
    {s : ℝ}
    (hs : 0 < s)
    (v : Vec ℝ) :
    (s • v).normalized = v.normalized := by
  have hfactor : (s * v.length)⁻¹ * s = v.length⁻¹ := by
    rw [mul_inv, mul_right_comm, inv_mul_cancel₀ (ne_of_gt hs), one_mul]
  rw [normalized, length_smul, abs_of_pos hs, smul_smul, hfactor, normalized]

/-- Trying a vector twice changes nothing. -/
theorem unitOr_unitOr (v fallback : Vec ℝ) :
    v.unitOr (v.unitOr fallback) = v.unitOr fallback := by
  rcases le_or_gt v.length Scalar.tolerance with hle | hlt
  · rw [unitOr_of_le hle, unitOr_of_le hle]
  · rw [unitOr_of_lt hlt, unitOr_of_lt hlt]

/-- What lies across an axis has no part along it. -/
theorem reject_of_unitAcross (h : UnitAcross z v) : v.reject z = v := by
  rw [reject, h.dot_eq_zero, zero_smul, sub_zero]

variable (hz : z.length = 1)
include hz

theorem cross_cross_left (v : Vec ℝ) : (z.cross v).cross z = v.reject z := by
  have hzz : z.dot z = 1 := length_eq_one_iff.mp hz
  rw [← neg_cross_eq, cross_cross, hzz, one_smul, neg_sub, dot_comm z v, reject]

theorem cross_cross_right (v : Vec ℝ) : z.cross (v.cross z) = v.reject z := by
  have hzz : z.dot z = 1 := length_eq_one_iff.mp hz
  rw [cross_cross, hzz, one_smul, dot_comm z v, reject]

/-- The product with a unit vector is as long as the part across it. -/
theorem length_cross_unit (v : Vec ℝ) : (v.cross z).length = (v.reject z).length := by
  have hzz : z.dot z = 1 := length_eq_one_iff.mp hz
  have hsq : (v.reject z).dot (v.reject z) = (v.cross z).dot (v.cross z) := by
    rw [dot_cross_cross, reject]
    simp only [sub_dot, dot_sub, smul_dot, dot_smul, hzz, dot_comm z v]
    ring
  rw [length_eq, length_eq, hsq]

/-- The third axis with the normalized product gives the normalized part across. -/
theorem cross_normalized (v : Vec ℝ) :
    z.cross (v.cross z).normalized = (v.reject z).normalized := by
  rw [normalized, cross_smul, cross_cross_right hz, length_cross_unit hz, normalized]

end Normalized

end Vec

namespace Frame

/-- The hint for the second axis decides: it has a direction, which is not along the normal. -/
def SecondDecides (yHint z : Vec ℝ) : Prop :=
  Scalar.tolerance < yHint.length ∧ Scalar.tolerance < (yHint.normalized.cross z).length

/-- The hint for the first axis can decide: it has a direction, which has a part across the
normal. -/
def FirstDecides (xHint z : Vec ℝ) : Prop :=
  Scalar.tolerance < xHint.length ∧ Scalar.tolerance < (xHint.normalized.reject z).length

section Choice

variable (origin : Point ℝ) {xHint yHint zHint z : Vec ℝ} (hz : zHint.unitOr Vec.basisZ = z)
include hz

theorem length_normal : z.length = 1 := by
  rw [← hz]
  exact Vec.length_unitOr Vec.length_basis.2.2

/-- The first axis in terms of the normal. -/
theorem ofAxes_xAxis :
    (ofAxes origin xHint yHint zHint).xAxis =
      ((yHint.unitOr (z.cross (xHint.unitOr z.orthogonal))).cross z).unitOr
        (((xHint.unitOr z.orthogonal).reject z).unitOr z.orthogonal) := by
  rw [← hz]
  rfl

theorem ofAxes_yAxis :
    (ofAxes origin xHint yHint zHint).yAxis = z.cross (ofAxes origin xHint yHint zHint).xAxis := by
  have hframe := ofAxes_orthonormal origin xHint yHint zHint
  have hnormal : (ofAxes origin xHint yHint zHint).zAxis = z := hz
  rw [← hnormal]
  exact (Vec.RightHanded.cycle (Vec.RightHanded.cycle hframe)).x_cross_y.symm

theorem yAxis_of_secondDecides (h : SecondDecides yHint z) :
    (ofAxes origin xHint yHint zHint).yAxis = (yHint.normalized.reject z).normalized := by
  rw [ofAxes_yAxis origin hz, ofAxes_xAxis origin hz, Vec.unitOr_of_lt h.1, ← Vec.normalized,
    Vec.unitOr_of_lt h.2, ← Vec.normalized]
  exact Vec.cross_normalized (length_normal hz) _

/-- A hint for the second axis that does not decide leaves the first axis to its own hint, whether
it is too short or along the normal. -/
theorem xAxis_of_not_secondDecides (h : ¬ SecondDecides yHint z) :
    (ofAxes origin xHint yHint zHint).xAxis =
      ((xHint.unitOr z.orthogonal).reject z).unitOr z.orthogonal := by
  rw [ofAxes_xAxis origin hz]
  rcases le_or_gt yHint.length Scalar.tolerance with hshort | hlong
  · rw [Vec.unitOr_of_le hshort, Vec.cross_cross_left (length_normal hz), Vec.unitOr_unitOr]
  · have hparallel : (yHint.normalized.cross z).length ≤ Scalar.tolerance :=
      not_lt.mp fun hskew => h ⟨hlong, hskew⟩
    rw [Vec.unitOr_of_lt hlong, ← Vec.normalized, Vec.unitOr_of_le hparallel]

theorem xAxis_of_firstDecides
    (hsecond : ¬ SecondDecides yHint z)
    (hfirst : FirstDecides xHint z) :
    (ofAxes origin xHint yHint zHint).xAxis = (xHint.normalized.reject z).normalized := by
  rw [xAxis_of_not_secondDecides origin hz hsecond, Vec.unitOr_of_lt hfirst.1, ← Vec.normalized,
    Vec.unitOr_of_lt hfirst.2, ← Vec.normalized]

theorem xAxis_of_none_decides
    (hsecond : ¬ SecondDecides yHint z)
    (hfirst : ¬ FirstDecides xHint z) :
    (ofAxes origin xHint yHint zHint).xAxis = z.orthogonal := by
  have hacross := Vec.orthogonal_of_length_eq_one (length_normal hz)
  rw [xAxis_of_not_secondDecides origin hz hsecond]
  rcases le_or_gt xHint.length Scalar.tolerance with hshort | hlong
  · rw [Vec.unitOr_of_le hshort, Vec.reject_of_unitAcross hacross,
      Vec.unitOr_of_length_eq_one _ hacross.length_eq_one]
  · have hparallel : (xHint.normalized.reject z).length ≤ Scalar.tolerance :=
      not_lt.mp fun hskew => hfirst ⟨hlong, hskew⟩
    rw [Vec.unitOr_of_lt hlong, ← Vec.normalized, Vec.unitOr_of_le hparallel]

end Choice

end Frame

namespace Component

variable {f : Frame ℝ}

/-- A plane is constructed from the first two axes of an orthonormal frame as that frame. -/
theorem planeOfAxes_of_orthonormal (hf : f.Orthonormal) :
    planeOfAxes f.origin (some f.xAxis) (some f.yAxis) = f := by
  have hx : f.xAxis.unit? = some f.xAxis := Vec.unit?_of_length_eq_one hf.length_x
  have hy : f.yAxis.unit? = some f.yAxis := Vec.unit?_of_length_eq_one hf.length_y
  have hz : f.zAxis.unit? = some f.zAxis := Vec.unit?_of_length_eq_one hf.length_z
  unfold planeOfAxes
  simp only [Option.bind_some, hx, hy, Option.getD_some, hf.x_cross_y, Vec.isDegenerate, hz,
    Option.isNone_some, Bool.false_eq_true, if_false]
  exact Frame.ofAxes_of_orthonormal _ hf

variable {δ : Type}

theorem constructPlane_of_orthonormal (hf : f.Orthonormal) :
    constructPlane.evaluate
        ([.point f.origin, .vector f.xAxis, .vector f.yAxis] : List (Value ℝ δ)) =
      .ok [("P", .frame f)] := by
  have hplane := planeOfAxes_of_orthonormal hf
  have hpoint : Pin.point (some (.point f.origin) : Pin ℝ δ) = .ok (some f.origin) := rfl
  have hvector : ∀ v : Vec ℝ, Pin.vector (some (.vector v) : Pin ℝ δ) = .ok (some v) :=
    fun _ => rfl
  show constructPlaneAt _ = _
  simp only [constructPlaneAt, List.getElem?_cons_zero, List.getElem?_cons_succ, hpoint, hvector]
  show Except.ok (onePlane (planeOfAxes f.origin (some f.xAxis) (some f.yAxis))) = _
  rw [hplane, onePlane]

theorem deconstructPlane_eq
    {plane : Value ℝ δ}
    (h : Pin.frame (some plane) = .ok (some f)) :
    deconstructPlane.evaluate [plane] =
      .ok [("O", .point f.origin), ("X", .vector f.xAxis), ("Y", .vector f.yAxis),
        ("Z", .vector f.zAxis)] := by
  show deconstructPlaneAt _ = _
  simp only [deconstructPlaneAt, needPlane, Pin.require, List.getElem?_cons_zero, h]
  rfl

end Component

namespace Frame

/-- **Which hint decides.**  The origin is kept and the normal is the direction of its hint, or that
of the third coordinate axis where the hint has none.  The second axis is the part of its hint
across the normal; where there is none, the first axis is the part of its own, and where there is
none either, it is the unit vector found across the normal.  So an orthonormal frame is kept, and
any value that is read as a plane is constructed again from the origin and the axes that it is
deconstructed into. -/
theorem ofAxes_decided :
    (∀ (origin : Point ℝ) (xHint yHint zHint : Vec ℝ),
      ∃ f : Frame ℝ, ofAxes origin xHint yHint zHint = f ∧
      f.Orthonormal ∧
      f.origin = origin ∧
      (Scalar.tolerance < zHint.length → f.zAxis = zHint.normalized) ∧
      (zHint.length ≤ Scalar.tolerance → f.zAxis = Vec.basisZ) ∧
      (SecondDecides yHint f.zAxis →
        f.yAxis = (yHint.normalized.reject f.zAxis).normalized) ∧
      (¬ SecondDecides yHint f.zAxis → FirstDecides xHint f.zAxis →
        f.xAxis = (xHint.normalized.reject f.zAxis).normalized) ∧
      (¬ SecondDecides yHint f.zAxis → ¬ FirstDecides xHint f.zAxis →
        f.xAxis = f.zAxis.orthogonal)) ∧
    (∀ f : Frame ℝ, f.Orthonormal → ofAxes f.origin f.xAxis f.yAxis f.zAxis = f) ∧
    (∀ (δ : Type) (f : Frame ℝ), Pin.frame (some (.frame f) : Pin ℝ δ) =
      .ok (some (ofAxes f.origin f.xAxis f.yAxis f.zAxis))) ∧
    ∀ (δ : Type) (plane : Value ℝ δ) (f : Frame ℝ), Pin.frame (some plane) = .ok (some f) →
      Component.deconstructPlane.evaluate [plane] =
        .ok [("O", .point f.origin), ("X", .vector f.xAxis), ("Y", .vector f.yAxis),
          ("Z", .vector f.zAxis)] ∧
      Component.constructPlane.evaluate
          ([.point f.origin, .vector f.xAxis, .vector f.yAxis] : List (Value ℝ δ)) =
        .ok [("P", .frame f)] := by
  refine ⟨?_, fun f hf => ofAxes_of_orthonormal f.xAxis hf, fun δ f => rfl, ?_⟩
  · intro origin xHint yHint zHint
    refine ⟨_, rfl, ofAxes_orthonormal _ _ _ _, rfl, ?_, ?_, ?_, ?_, ?_⟩
    · exact fun hlong => Vec.unitOr_of_lt hlong _
    · exact fun hshort => Vec.unitOr_of_le hshort _
    · exact yAxis_of_secondDecides origin rfl
    · exact xAxis_of_firstDecides origin rfl
    · exact xAxis_of_none_decides origin rfl
  · intro δ plane f hplane
    have hf : f.Orthonormal := by
      simpa using Pin.frame_orthonormal hplane
    exact ⟨Component.deconstructPlane_eq hplane, Component.constructPlane_of_orthonormal hf⟩

/-- Without a hint for the normal: a skew hint for the second axis decides by its part across, one
along the normal leaves the choice to the first, and where both fail neither decides.  A point
stands for the plane through it. -/
theorem ofAxes_decided_upright :
    (ofAxes Point.origin 0 ⟨0, 3 / 5, 4 / 5⟩ 0 : Frame ℝ).zAxis = Vec.basisZ ∧
    SecondDecides ⟨0, 3 / 5, 4 / 5⟩ Vec.basisZ ∧
    (ofAxes Point.origin 0 ⟨0, 3 / 5, 4 / 5⟩ 0 : Frame ℝ).yAxis = Vec.basisY ∧
    ¬ SecondDecides Vec.basisZ Vec.basisZ ∧ FirstDecides ⟨3 / 5, 0, 4 / 5⟩ Vec.basisZ ∧
    (ofAxes Point.origin ⟨3 / 5, 0, 4 / 5⟩ Vec.basisZ 0 : Frame ℝ).xAxis = Vec.basisX ∧
    ¬ FirstDecides Vec.basisZ Vec.basisZ ∧
    (ofAxes Point.origin Vec.basisZ Vec.basisZ 0 : Frame ℝ).xAxis = Vec.basisZ.orthogonal ∧
    (world : Frame ℝ).Orthonormal ∧
    ofAxes Point.origin Vec.basisX Vec.basisY Vec.basisZ = (world : Frame ℝ) ∧
    Pin.frame (some (.point ⟨1, 0, 1⟩) : Pin ℝ Moment) = .ok (some (worldXY ⟨1, 0, 1⟩ : Frame ℝ)) ∧
    Component.constructPlane.evaluate
        ([.point ⟨1, 0, 1⟩, .vector Vec.basisX, .vector Vec.basisY] : List (Value ℝ Moment)) =
      .ok [("P", .frame (worldXY ⟨1, 0, 1⟩))] := by
  obtain ⟨hx, hy, hz⟩ := Vec.length_basis
  have hshort : (0 : Vec ℝ).length ≤ Scalar.tolerance := by
    rw [Vec.length_zero]
    exact le_of_lt Scalar.tolerance_pos
  have hlong : ∀ v : Vec ℝ, v.length = 1 → Scalar.tolerance < ((3 / 5 : ℝ) • v).length := by
    intro v hv
    rw [Vec.length_smul, hv, Scalar.tolerance_exact, abs_of_pos] <;> norm_num
  have hpart : ∀ v : Vec ℝ, v.length = 1 → ((3 / 5 : ℝ) • v).normalized = v := by
    intro v hv
    rw [Vec.normalized_smul (by norm_num), Vec.normalized_of_length_eq_one hv]
  -- two skew hints, with their parts across the normal
  have hsecondUnit : (⟨0, 3 / 5, 4 / 5⟩ : Vec ℝ).length = 1 := by
    norm_num [Vec.length_eq_one_iff, Vec.dot_eq]
  have hfirstUnit : (⟨3 / 5, 0, 4 / 5⟩ : Vec ℝ).length = 1 := by
    norm_num [Vec.length_eq_one_iff, Vec.dot_eq]
  have hcross : (⟨0, 3 / 5, 4 / 5⟩ : Vec ℝ).cross Vec.basisZ = (3 / 5 : ℝ) • Vec.basisX := by
    ext <;> norm_num [Vec.cross_eq, Vec.basisX, Vec.basisZ]
  have hsecondPart : (⟨0, 3 / 5, 4 / 5⟩ : Vec ℝ).reject Vec.basisZ = (3 / 5 : ℝ) • Vec.basisY := by
    ext <;> norm_num [Vec.reject, Vec.dot_eq, Vec.basisY, Vec.basisZ]
  have hfirstPart : (⟨3 / 5, 0, 4 / 5⟩ : Vec ℝ).reject Vec.basisZ = (3 / 5 : ℝ) • Vec.basisX := by
    ext <;> norm_num [Vec.reject, Vec.dot_eq, Vec.basisX, Vec.basisZ]
  have hskew : SecondDecides ⟨0, 3 / 5, 4 / 5⟩ Vec.basisZ := by
    rw [SecondDecides, Vec.normalized_of_length_eq_one hsecondUnit, hsecondUnit, hcross]
    exact ⟨Scalar.tolerance_lt_one, hlong _ hx⟩
  have hfirst : FirstDecides ⟨3 / 5, 0, 4 / 5⟩ Vec.basisZ := by
    rw [FirstDecides, Vec.normalized_of_length_eq_one hfirstUnit, hfirstUnit, hfirstPart]
    exact ⟨Scalar.tolerance_lt_one, hlong _ hx⟩
  -- the normal itself has no part across
  have hparallel : ¬ SecondDecides Vec.basisZ Vec.basisZ := by
    have hzero : (Vec.basisZ : Vec ℝ).cross Vec.basisZ = 0 := by
      ext <;> norm_num [Vec.cross_eq, Vec.basisZ]
    rw [SecondDecides, Vec.normalized_of_length_eq_one hz, hzero]
    exact fun h => absurd h.2 (not_lt.mpr hshort)
  have hnone : ¬ FirstDecides Vec.basisZ Vec.basisZ := by
    have hzero : (Vec.basisZ : Vec ℝ).reject Vec.basisZ = 0 := by
      rw [Vec.reject, Vec.dot_basisZ, Vec.basisZ_z, one_smul, sub_self]
    rw [FirstDecides, Vec.normalized_of_length_eq_one hz, hzero]
    exact fun h => absurd h.2 (not_lt.mpr hshort)
  obtain ⟨hchoice, hkept, -, hbuilt⟩ := ofAxes_decided
  obtain ⟨_, rfl, -, -, -, hup, hsecond, -⟩ := hchoice Point.origin 0 ⟨0, 3 / 5, 4 / 5⟩ 0
  obtain ⟨_, rfl, -, -, -, hup', -, hother, -⟩ :=
    hchoice Point.origin ⟨3 / 5, 0, 4 / 5⟩ Vec.basisZ 0
  obtain ⟨_, rfl, -, -, -, hup'', -, -, hrest⟩ := hchoice Point.origin Vec.basisZ Vec.basisZ 0
  rw [hup hshort] at hsecond
  rw [hup' hshort] at hother
  rw [hup'' hshort] at hrest
  refine ⟨hup hshort, hskew, ?_, hparallel, hfirst, ?_, hnone, hrest hparallel hnone,
    world_orthonormal, hkept world world_orthonormal, rfl,
    (hbuilt Moment (.point ⟨1, 0, 1⟩) (worldXY ⟨1, 0, 1⟩) rfl).2⟩
  · rw [hsecond hskew, Vec.normalized_of_length_eq_one hsecondUnit, hsecondPart, hpart _ hy]
  · rw [hother hparallel hfirst, Vec.normalized_of_length_eq_one hfirstUnit, hfirstPart, hpart _ hx]

end Frame

end FieldGeometry
