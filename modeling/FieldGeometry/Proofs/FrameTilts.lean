import FieldGeometry.Proofs.FrameHints

/-!
# Tilting frames

A frame that is tilted to a new normal keeps its first axis as far as the new plane allows: the new
first axis is the direction of the part of the old one in that plane, and no unit vector of the
plane lies closer to the old axis (`Vec.UnitAcross.dot_le`).

The old first axis has no such part when the new normal is along it.  Then the second axis, being
perpendicular to the first, lies almost wholly in the new plane
(`Vec.RightHanded.lt_length_reject`), and its part takes the place.  So one of the two axes always
decides, and no third choice is needed.
-/

namespace FieldGeometry

namespace Vec

section Across

variable {v w x y z axis : Vec ℝ}

/-- A vector across an axis sees of another vector only the part across. -/
theorem UnitAcross.dot_reject
    (h : UnitAcross axis v)
    (w : Vec ℝ) :
    v.dot (w.reject axis) = v.dot w := by
  rw [reject, dot_sub, dot_smul, h.dot_eq_zero, mul_zero, sub_zero]

/-- The part of a vector across a unit axis and the part along it make up its length. -/
theorem length_reject_sq
    (haxis : axis.length = 1)
    (v : Vec ℝ) :
    (v.reject axis).length ^ 2 = v.length ^ 2 - v.dot axis ^ 2 := by
  have haa : axis.dot axis = 1 := length_eq_one_iff.mp haxis
  rw [length_sq, length_sq, reject]
  simp only [sub_dot, dot_sub, smul_dot, dot_smul, haa, dot_comm axis v]
  ring

/-- The direction of the part across an axis, where the vector has one. -/
theorem unitAcross_normalized
    (haxis : axis.length = 1)
    (h : Scalar.tolerance < (v.reject axis).length) :
    UnitAcross axis (v.reject axis).normalized :=
  unitAcross_of_unit? (unit?_of_lt h) (reject_dot v haxis)

/-- No unit vector across an axis lies closer to a vector than its part across is long. -/
theorem UnitAcross.dot_le
    (h : UnitAcross axis v)
    (w : Vec ℝ) :
    v.dot w ≤ (w.reject axis).length := by
  have hcauchy := dot_le_length_mul_length v (w.reject axis)
  rwa [h.dot_reject, h.length_eq_one, one_mul] at hcauchy

/-- The direction of the part across an axis lies as close. -/
theorem normalized_reject_dot
    (haxis : axis.length = 1)
    (h : Scalar.tolerance < (v.reject axis).length) :
    (v.reject axis).normalized.dot v = (v.reject axis).length := by
  have hpos : 0 < (v.reject axis).length := lt_trans Scalar.tolerance_pos h
  rw [← (unitAcross_normalized haxis h).dot_reject, normalized, smul_dot, ← length_sq, pow_two,
    inv_mul_cancel_left₀ (ne_of_gt hpos)]

/-- A unit vector that is nearly along the first axis of a triple is nearly across the second. -/
theorem RightHanded.lt_length_reject
    (h : RightHanded x y z)
    (haxis : axis.length = 1)
    (hx : (x.reject axis).length ≤ Scalar.tolerance) :
    Scalar.tolerance < (y.reject axis).length := by
  have hsmall : (Scalar.tolerance : ℝ) ^ 2 < 1 / 2 := by
    rw [Scalar.tolerance_exact]
    norm_num
  have hacrossX : (x.reject axis).length ^ 2 ≤ Scalar.tolerance ^ 2 :=
    pow_le_pow_left₀ (length_nonneg _) hx 2
  have hparts := h.dot_self axis
  have hrest := sq_nonneg (z.dot axis)
  rw [length_eq_one_iff.mp haxis] at hparts
  rw [length_reject_sq haxis, h.length_x] at hacrossX
  apply lt_of_pow_lt_pow_left₀ 2 (length_nonneg _)
  rw [length_reject_sq haxis, h.length_y]
  linarith

end Across

end Vec

namespace Frame

/-- A unit normal and a unit vector across it, with their product, are kept as they are. -/
theorem ofAxes_of_unitAcross
    (origin : Point ℝ)
    (xHint : Vec ℝ)
    {x z : Vec ℝ}
    (hz : z.length = 1)
    (h : Vec.UnitAcross z x) :
    ofAxes origin xHint (z.cross x) z = ⟨origin, x, z.cross x, z⟩ := by
  have htriple := h.rightHanded hz
  rw [ofAxes_of_perpendicular _ _ htriple.length_y hz htriple.y_dot_z, htriple.cycle.x_cross_y]

section Tilt

variable {f : Frame ℝ} (hf : f.Orthonormal) {normal z : Vec ℝ} (hz : normal.unitOr f.zAxis = z)
include hf hz

theorem length_tilted : z.length = 1 := by
  rw [← hz]
  exact Vec.length_unitOr hf.length_z

/-- Where the first axis has a part in the new plane, it decides. -/
theorem adjustNormal_of_lt (h : Scalar.tolerance < (f.xAxis.reject z).length) :
    f.adjustNormal normal =
      ⟨f.origin, (f.xAxis.reject z).normalized, z.cross (f.xAxis.reject z).normalized, z⟩ := by
  have hunit := length_tilted hf hz
  unfold adjustNormal
  simp only [hz, Vec.unitOr_of_lt h]
  exact ofAxes_of_unitAcross _ _ hunit (Vec.unitAcross_normalized hunit h)

/-- Where it has none, the second axis decides. -/
theorem adjustNormal_of_le (h : (f.xAxis.reject z).length ≤ Scalar.tolerance) :
    f.adjustNormal normal =
      ⟨f.origin, (f.yAxis.reject z).normalized, z.cross (f.yAxis.reject z).normalized, z⟩ := by
  have hunit := length_tilted hf hz
  have hsecond := Vec.RightHanded.lt_length_reject hf hunit h
  unfold adjustNormal
  simp only [hz, Vec.unitOr_of_le h, Vec.unitOr_of_lt hsecond]
  exact ofAxes_of_unitAcross _ _ hunit (Vec.unitAcross_normalized hunit hsecond)

end Tilt

/-- **Tilting a frame.**  Tilted to a new normal a frame keeps its origin, and its normal where the
new one is negligible.  Where its first axis has a part across the new normal, the new first axis is
the direction of that part, and of all unit vectors across the normal it lies closest to the old
one.  Otherwise it is the direction of the part of the second axis, which then has one.  Whatever
would stand in for both is never used. -/
theorem adjustNormal_closest
    {f : Frame ℝ}
    (hf : f.Orthonormal)
    (normal : Vec ℝ) :
    ∃ g : Frame ℝ, f.adjustNormal normal = g ∧
      g.Orthonormal ∧
      g.origin = f.origin ∧
      (Scalar.tolerance < normal.length → g.zAxis = normal.normalized) ∧
      (normal.length ≤ Scalar.tolerance → g.zAxis = f.zAxis) ∧
      (Scalar.tolerance < (f.xAxis.reject g.zAxis).length →
        g.xAxis = (f.xAxis.reject g.zAxis).normalized ∧
        ∀ v : Vec ℝ, v.length = 1 → v.dot g.zAxis = 0 →
          v.dot f.xAxis ≤ g.xAxis.dot f.xAxis) ∧
      ((f.xAxis.reject g.zAxis).length ≤ Scalar.tolerance →
        Scalar.tolerance < (f.yAxis.reject g.zAxis).length ∧
        g.xAxis = (f.yAxis.reject g.zAxis).normalized) ∧
      ∀ fallback : Vec ℝ,
        (f.xAxis.reject g.zAxis).unitOr ((f.yAxis.reject g.zAxis).unitOr fallback) = g.xAxis := by
  obtain ⟨z, hz⟩ : ∃ z, normal.unitOr f.zAxis = z := ⟨_, rfl⟩
  have hunit := length_tilted hf hz
  have htilted : Scalar.tolerance < normal.length → z = normal.normalized := by
    intro h
    rw [← hz, Vec.unitOr_of_lt h, Vec.normalized]
  have hkept : normal.length ≤ Scalar.tolerance → z = f.zAxis := by
    intro h
    rw [← hz, Vec.unitOr_of_le h]
  refine ⟨_, rfl, ofAxes_orthonormal _ _ _ _, rfl, ?_⟩
  rcases le_or_gt (f.xAxis.reject z).length Scalar.tolerance with hshort | hlong
  · have hsecond := Vec.RightHanded.lt_length_reject hf hunit hshort
    rw [adjustNormal_of_le hf hz hshort]
    refine ⟨htilted, hkept, fun h => absurd h (not_lt.mpr hshort), fun _ => ⟨hsecond, rfl⟩, ?_⟩
    intro fallback
    rw [Vec.unitOr_of_le hshort, Vec.unitOr_of_lt hsecond, Vec.normalized]
  · rw [adjustNormal_of_lt hf hz hlong]
    refine ⟨htilted, hkept, fun _ => ⟨rfl, ?_⟩, fun h => absurd hlong (not_lt.mpr h), ?_⟩
    · intro v hv hacross
      rw [Vec.normalized_reject_dot hunit hlong]
      exact Vec.UnitAcross.dot_le ⟨hv, hacross⟩ f.xAxis
    · intro fallback
      rw [Vec.unitOr_of_lt hlong, Vec.normalized]

/-- The world frame, tilted to a normal between its first and third axes and to one along its first
axis: there the first axis turns as little as it can, here the second takes its place. -/
theorem adjustNormal_closest_world :
    (world : Frame ℝ).Orthonormal ∧
    ((world : Frame ℝ).adjustNormal ⟨3 / 5, 0, 4 / 5⟩).xAxis = ⟨4 / 5, 0, -3 / 5⟩ ∧
    (∀ v : Vec ℝ, v.length = 1 → v.dot ⟨3 / 5, 0, 4 / 5⟩ = 0 → v.dot Vec.basisX ≤ 4 / 5) ∧
    ((world : Frame ℝ).adjustNormal Vec.basisX).xAxis = Vec.basisY := by
  obtain ⟨hx, hy, -⟩ := Vec.length_basis
  have hskewUnit : (⟨3 / 5, 0, 4 / 5⟩ : Vec ℝ).length = 1 := by
    norm_num [Vec.length_eq_one_iff, Vec.dot_eq]
  have hpartUnit : (⟨4 / 5, 0, -3 / 5⟩ : Vec ℝ).length = 1 := by
    norm_num [Vec.length_eq_one_iff, Vec.dot_eq]
  have hpart : (world : Frame ℝ).xAxis.reject ⟨3 / 5, 0, 4 / 5⟩ =
      (4 / 5 : ℝ) • ⟨4 / 5, 0, -3 / 5⟩ := by
    ext <;> norm_num [Vec.reject, Vec.dot_eq, world, worldXY, Vec.basisX]
  have hnone : (world : Frame ℝ).xAxis.reject Vec.basisX = 0 := by
    ext <;> norm_num [Vec.reject, Vec.dot_eq, world, worldXY, Vec.basisX]
  have hwhole : (world : Frame ℝ).yAxis.reject Vec.basisX = Vec.basisY := by
    ext <;> norm_num [Vec.reject, Vec.dot_eq, world, worldXY, Vec.basisX, Vec.basisY]
  have hlong : Scalar.tolerance < ((4 / 5 : ℝ) • (⟨4 / 5, 0, -3 / 5⟩ : Vec ℝ)).length := by
    rw [Vec.length_smul, hpartUnit, Scalar.tolerance_exact, abs_of_pos] <;> norm_num
  obtain ⟨_, rfl, -, -, hskewZ, -, hskewX, -⟩ :=
    adjustNormal_closest world_orthonormal ⟨3 / 5, 0, 4 / 5⟩
  obtain ⟨_, rfl, -, -, halongZ, -, -, halongX, -⟩ :=
    adjustNormal_closest world_orthonormal Vec.basisX
  rw [hskewUnit, Vec.normalized_of_length_eq_one hskewUnit] at hskewZ
  rw [hx, Vec.normalized_of_length_eq_one hx] at halongZ
  rw [hskewZ Scalar.tolerance_lt_one, hpart, Vec.normalized_smul (by norm_num),
    Vec.normalized_of_length_eq_one hpartUnit] at hskewX
  rw [halongZ Scalar.tolerance_lt_one, hnone, hwhole, Vec.normalized_of_length_eq_one hy,
    Vec.length_zero] at halongX
  obtain ⟨hskew, hclosest⟩ := hskewX hlong
  rw [hskew] at hclosest
  refine ⟨world_orthonormal, hskew, fun v hv hacross => ?_, ?_⟩
  · exact le_of_le_of_eq (hclosest v hv hacross) (Vec.dot_basisX _)
  · exact (halongX (le_of_lt Scalar.tolerance_pos)).2

end Frame

end FieldGeometry
