import FieldGeometry.Proofs.FrameSpans
import FieldGeometry.Proofs.PlaneFeet
import FieldGeometry.Proofs.SectionGrid

/-!
# The rectangle of a section

A section is a rectangle in the plane of its frame.  Its grids lie in the rectangle: the point in
row `i` and column `j` is `i` steps from the first end of the one side and `j` steps from that of
the other, and grids of at least two rows and columns reach all four corners
(`Section.pointAt_of_lt`, `Section.mem_points_iff`).

The section through three points is the smallest such rectangle: its sides are the least intervals
that hold the coordinates of the points (`Section.extent_spec`).  Where the points are not on a line
the plane is the one through them, whatever the distance of the first two
(`Frame.throughPoints_zAxis`), so all three are in the rectangle.
-/

namespace FieldGeometry

namespace Frame

@[simp] theorem throughPoints_origin (a b c : Point ℝ) : (throughPoints a b c).origin = a := by
  unfold throughPoints
  simp only
  split <;> rfl

/-- The normal of the plane through three points that are not on a line is that of two sides. -/
theorem throughPoints_zAxis
    {a b c : Point ℝ}
    (h : Scalar.tolerance < ((b - a : Vec ℝ).cross (c - a)).length) :
    (throughPoints a b c).zAxis = ((b - a : Vec ℝ).cross (c - a)).normalized := by
  have hsome := Vec.unit?_of_lt h
  rw [← Vec.normalized] at hsome
  unfold throughPoints
  simp only [hsome]
  rw [ofAxes_zAxis, Vec.unitOr_of_length_eq_one _ (Vec.length_of_unit? hsome)]

/-- Three points that are not on a line lie in the plane of their frame. -/
theorem coordinates_throughPoints_z
    {a b c : Point ℝ}
    (h : Scalar.tolerance < ((b - a : Vec ℝ).cross (c - a)).length) :
    ∀ p ∈ [a, b, c], ((throughPoints a b c).coordinates p).z = 0 := by
  have hside : ∀ {v : Vec ℝ}, ((b - a : Vec ℝ).cross (c - a)).dot v = 0 →
      (throughPoints a b c).zAxis.dot v = 0 := by
    intro v hv
    rw [throughPoints_zAxis h, Vec.normalized, Vec.smul_dot, hv, mul_zero]
  simp only [List.forall_mem_cons, List.not_mem_nil, false_imp_iff, implies_true, and_true,
    coordinates_eq, throughPoints_origin]
  refine ⟨?_, hside (Vec.cross_dot_left _ _), hside (Vec.cross_dot_right _ _)⟩
  rw [Point.sub_self_eq, Vec.dot_zero]

end Frame

namespace Section

/-- The points of the frame's plane whose coordinates lie between the ends of the two intervals. -/
def rectangle (s : Section ℝ) : Set (Point ℝ) :=
  {p | ∃ u ∈ Set.uIcc s.u.1 s.u.2, ∃ v ∈ Set.uIcc s.v.1 s.v.2, s.frame.pointAt u v 0 = p}

/-- The four corners of the rectangle. -/
def corners (s : Section ℝ) : Set (Point ℝ) :=
  {p | ∃ u ∈ ({s.u.1, s.u.2} : Set ℝ), ∃ v ∈ ({s.v.1, s.v.2} : Set ℝ), s.frame.pointAt u v 0 = p}

/-- The distance of neighbours along a side with `n` points, from its first end towards the
other. -/
noncomputable def spacing (side : ℝ × ℝ) (n : ℕ) : ℝ :=
  (side.2 - side.1) / (n - 1)

section Sides

variable (side : ℝ × ℝ) {i n : ℕ}

theorem fraction_of_lt (h : i < n) : (fraction i n : ℝ) = i / (n - 1) := by
  unfold fraction
  split_ifs with hn
  · -- a single point is the one with index zero
    obtain rfl : i = 0 := by omega
    rw [Nat.cast_zero, zero_div]
  · rfl

theorem add_mul_fraction
    (h : i < n) :
    side.1 + (side.2 - side.1) * fraction i n = side.1 + i * spacing side n := by
  rw [fraction_of_lt h, spacing]
  ring

/-- Steps along a side stay between its ends. -/
theorem add_mul_spacing_mem (h : i < n) :
    side.1 + i * spacing side n ∈ Set.uIcc side.1 side.2 := by
  have hle : (i : ℝ) ≤ n - 1 := by
    rw [le_sub_iff_add_le]
    exact_mod_cast h
  have hnonneg : (0 : ℝ) ≤ i := Nat.cast_nonneg i
  have hfraction : (i : ℝ) / (n - 1) ∈ Set.Icc (0 : ℝ) 1 :=
    ⟨div_nonneg hnonneg (le_trans hnonneg hle), div_le_one_of_le₀ hle (le_trans hnonneg hle)⟩
  have hmem := (convex_uIcc side.1 side.2).add_smul_sub_mem Set.left_mem_uIcc Set.right_mem_uIcc
    hfraction
  have hstep : (i : ℝ) * spacing side n = (i : ℝ) / (n - 1) * (side.2 - side.1) := by
    rw [spacing]
    ring
  rwa [hstep]

/-- With two points or more, both ends of a side are among them. -/
theorem exists_add_mul_spacing_eq
    (h : 2 ≤ n)
    {x : ℝ}
    (hx : x ∈ ({side.1, side.2} : Set ℝ)) :
    ∃ i < n, side.1 + i * spacing side n = x := by
  rcases hx with rfl | rfl
  · refine ⟨0, by omega, ?_⟩
    rw [Nat.cast_zero, zero_mul, add_zero]
  · refine ⟨n - 1, by omega, ?_⟩
    have hne : (n : ℝ) - 1 ≠ 0 := by
      rw [sub_ne_zero]
      exact_mod_cast (show n ≠ 1 by omega)
    rw [Nat.cast_sub (by omega), Nat.cast_one, spacing, mul_div_cancel₀ _ hne, add_sub_cancel]

end Sides

section Grids

variable (s : Section ℝ) {grid : Grid} {i j : ℕ}

/-- A point of a grid lies as many steps along each side as its row and column say. -/
theorem pointAt_of_lt
    (hi : i < grid.uCount)
    (hj : j < grid.vCount) :
    s.pointAt grid i j =
      s.frame.pointAt (s.u.1 + i * spacing s.u grid.uCount)
        (s.v.1 + j * spacing s.v grid.vCount) 0 := by
  rw [pointAt, add_mul_fraction s.u hi, add_mul_fraction s.v hj]

theorem mem_rectangle_of_mem_points
    {p : Point ℝ}
    (h : p ∈ s.points grid) :
    p ∈ s.rectangle := by
  obtain ⟨i, j, hi, hj, rfl⟩ := (s.mem_points_iff grid).mp h
  exact ⟨_, add_mul_spacing_mem s.u hi, _, add_mul_spacing_mem s.v hj, (s.pointAt_of_lt hi hj).symm⟩

theorem mem_points_of_mem_corners
    (hu : 2 ≤ grid.uCount)
    (hv : 2 ≤ grid.vCount)
    {p : Point ℝ}
    (h : p ∈ s.corners) :
    p ∈ s.points grid := by
  obtain ⟨x, hx, y, hy, rfl⟩ := h
  obtain ⟨i, hi, rfl⟩ := exists_add_mul_spacing_eq s.u hu hx
  obtain ⟨j, hj, rfl⟩ := exists_add_mul_spacing_eq s.v hv hy
  exact (s.mem_points_iff grid).mpr ⟨i, j, hi, hj, s.pointAt_of_lt hi hj⟩

/-- With orthonormal axes the rectangle is given by the coordinates of its points. -/
theorem mem_rectangle_iff
    (hf : s.frame.Orthonormal)
    {p : Point ℝ} :
    p ∈ s.rectangle ↔
      ∃ u ∈ Set.uIcc s.u.1 s.u.2, ∃ v ∈ Set.uIcc s.v.1 s.v.2, s.frame.coordinates p = ⟨u, v, 0⟩ := by
  constructor
  · rintro ⟨u, hu, v, hv, rfl⟩
    exact ⟨u, hu, v, hv, hf.coordinates_pointAt u v 0⟩
  · rintro ⟨u, hu, v, hv, hp⟩
    refine ⟨u, hu, v, hv, ?_⟩
    have hback := hf.pointAt_coordinates p
    rwa [hp] at hback

end Grids

/-- An interval, given by its ends, is the smallest that holds a set of numbers. -/
def IsSmallestInterval (xs : Set ℝ) (interval : ℝ × ℝ) : Prop :=
  xs ⊆ Set.Icc interval.1 interval.2 ∧
    ∀ lo hi : ℝ, xs ⊆ Set.Icc lo hi → lo ≤ interval.1 ∧ interval.2 ≤ hi

/-- The extent of numbers goes from the least to the greatest of them. -/
theorem extent_spec (x : ℝ) (xs : List ℝ) :
    IsLeast {y | y ∈ x :: xs} (extent (x :: xs)).1 ∧
      IsGreatest {y | y ∈ x :: xs} (extent (x :: xs)).2 := by
  simpa [extent] using And.intro (Scalar.isLeast_foldl_minNum x xs)
    (Scalar.isGreatest_foldl_maxNum x xs)

theorem isSmallestInterval_extent (x : ℝ) (xs : List ℝ) :
    IsSmallestInterval {y | y ∈ x :: xs} (extent (x :: xs)) := by
  obtain ⟨⟨hleast, hlower⟩, ⟨hgreatest, hupper⟩⟩ := extent_spec x xs
  refine ⟨fun y hy => ⟨hlower hy, hupper hy⟩, ?_⟩
  intro lo hi h
  exact ⟨(h hleast).1, (h hgreatest).2⟩

section Spanned

variable (a b c : Point ℝ)

/-- The sides of the section through three points are the extents of their coordinates. -/
theorem isSmallestInterval_throughPoints :
    IsSmallestInterval {x | ∃ p ∈ [a, b, c], ((throughPoints a b c).frame.coordinates p).x = x}
      (throughPoints a b c).u ∧
    IsSmallestInterval {y | ∃ p ∈ [a, b, c], ((throughPoints a b c).frame.coordinates p).y = y}
      (throughPoints a b c).v := by
  simp only [← List.mem_map]
  exact ⟨isSmallestInterval_extent _ _, isSmallestInterval_extent _ _⟩

/-- Points that are not on a line are in the rectangle of the section through them. -/
theorem mem_rectangle_throughPoints
    (h : Scalar.tolerance < ((b - a : Vec ℝ).cross (c - a)).length) :
    ∀ p ∈ [a, b, c], p ∈ (throughPoints a b c).rectangle := by
  intro p hp
  obtain ⟨⟨hu, -⟩, ⟨hv, -⟩⟩ := isSmallestInterval_throughPoints a b c
  rw [mem_rectangle_iff _ (Frame.throughPoints_orthonormal a b c)]
  refine ⟨_, Set.Icc_subset_uIcc (hu ⟨p, hp, rfl⟩), _, Set.Icc_subset_uIcc (hv ⟨p, hp, rfl⟩), ?_⟩
  exact congrArg (Point.mk _ _) (Frame.coordinates_throughPoints_z h p hp)

end Spanned

/-- **The rectangle of a section.**  A grid has as many points as the product of its counts, and
they stand row after row, in any arithmetic.  In a frame with orthonormal axes all of them are in
the rectangle, each as many equal steps along the sides as its row and column say, and with two or
more points along each side the corners are among them.

The sides of the section through three points are the smallest intervals that hold the coordinates
of the points.  Where the points are not on a line, they lie in the plane, and so in the
rectangle. -/
theorem rectangle_sampled :
    (∀ {α : Type} [Scalar α] (s : Section α) (grid : Grid),
      (s.points grid).length = grid.uCount * grid.vCount ∧
      ∀ i j : ℕ, i < grid.uCount → j < grid.vCount →
        (s.points grid)[i * grid.vCount + j]? = some (s.pointAt grid i j)) ∧
    (∀ (s : Section ℝ) (grid : Grid), s.frame.Orthonormal →
      (∀ p ∈ s.points grid, p ∈ s.rectangle) ∧
      (∀ p ∈ s.rectangle, ∃ u ∈ Set.uIcc s.u.1 s.u.2, ∃ v ∈ Set.uIcc s.v.1 s.v.2,
        s.frame.coordinates p = ⟨u, v, 0⟩) ∧
      (∀ i j : ℕ, i < grid.uCount → j < grid.vCount →
        s.frame.coordinates (s.pointAt grid i j) =
          ⟨s.u.1 + i * spacing s.u grid.uCount, s.v.1 + j * spacing s.v grid.vCount, 0⟩) ∧
      (2 ≤ grid.uCount → 2 ≤ grid.vCount → ∀ p ∈ s.corners, p ∈ s.points grid)) ∧
    (∀ a b c : Point ℝ, ∃ s : Section ℝ, throughPoints a b c = s ∧
      s.frame = Frame.throughPoints a b c ∧ s.frame.Orthonormal ∧
      IsSmallestInterval {x | ∃ p ∈ [a, b, c], (s.frame.coordinates p).x = x} s.u ∧
      IsSmallestInterval {y | ∃ p ∈ [a, b, c], (s.frame.coordinates p).y = y} s.v ∧
      (Scalar.tolerance < ((b - a : Vec ℝ).cross (c - a)).length →
        ∀ p ∈ [a, b, c], (s.frame.coordinates p).z = 0 ∧ p ∈ s.rectangle)) := by
  refine ⟨?_, ?_, ?_⟩
  · intro α _ s grid
    exact ⟨s.length_points grid, fun i j hi hj => s.getElem?_points_row grid hi hj⟩
  · intro s grid hf
    refine ⟨fun p hp => s.mem_rectangle_of_mem_points hp,
      fun p hp => (s.mem_rectangle_iff hf).mp hp, ?_,
      fun hu hv p hp => s.mem_points_of_mem_corners hu hv hp⟩
    intro i j hi hj
    rw [s.pointAt_of_lt hi hj, hf.coordinates_pointAt]
  · intro a b c
    obtain ⟨hu, hv⟩ := isSmallestInterval_throughPoints a b c
    refine ⟨_, rfl, rfl, Frame.throughPoints_orthonormal a b c, hu, hv, ?_⟩
    intro h p hp
    exact ⟨Frame.coordinates_throughPoints_z h p hp, mem_rectangle_throughPoints a b c h p hp⟩

/-- The section through the corners of a triangle, of which one lies before the origin: three rows
of two points reach the far corner of its rectangle. -/
theorem rectangle_sampled_triangle :
    ∃ s : Section ℝ, s = throughPoints ⟨0, 0, 0⟩ ⟨2, 0, 0⟩ ⟨-1, 3, 0⟩ ∧
      s = ⟨.world, (-1, 2), (0, 3)⟩ ∧
      s.frame.Orthonormal ∧
      Scalar.tolerance <
        (((⟨2, 0, 0⟩ : Point ℝ) - (⟨0, 0, 0⟩ : Point ℝ) : Vec ℝ).cross
          ((⟨-1, 3, 0⟩ : Point ℝ) - (⟨0, 0, 0⟩ : Point ℝ))).length ∧
      ⟨-1, 3, 0⟩ ∈ s.rectangle ∧
      (s.points ⟨3, 2⟩)[5]? = some (s.pointAt ⟨3, 2⟩ 2 1) ∧
      s.frame.coordinates (s.pointAt ⟨3, 2⟩ 1 1) = ⟨1 / 2, 3, 0⟩ ∧
      ⟨2, 3, 0⟩ ∈ s.points ⟨3, 2⟩ := by
  obtain ⟨hgrid, hexact, hspanned⟩ := rectangle_sampled
  obtain ⟨s, hs, hframe, hf, -, -, hinside⟩ := hspanned ⟨0, 0, 0⟩ ⟨2, 0, 0⟩ ⟨-1, 3, 0⟩
  obtain ⟨hx, hy, hz⟩ := Vec.length_basis
  have hfirst : ((⟨2, 0, 0⟩ : Point ℝ) - (⟨0, 0, 0⟩ : Point ℝ) : Vec ℝ) = (2 : ℝ) • Vec.basisX := by
    ext <;> norm_num [Point.sub_eq_toVec_sub, Point.toVec, Vec.basisX]
  have hcross : ((⟨2, 0, 0⟩ : Point ℝ) - (⟨0, 0, 0⟩ : Point ℝ) : Vec ℝ).cross
      ((⟨-1, 3, 0⟩ : Point ℝ) - (⟨0, 0, 0⟩ : Point ℝ)) = (6 : ℝ) • Vec.basisZ := by
    ext <;> norm_num [Vec.cross_eq, Point.sub_eq_toVec_sub, Point.toVec, Vec.basisZ]
  have hacross : ((⟨-1, 3, 0⟩ : Point ℝ) - (⟨0, 0, 0⟩ : Point ℝ) : Vec ℝ).reject Vec.basisX =
      (3 : ℝ) • Vec.basisY := by
    rw [Vec.reject, Vec.dot_basisX]
    ext <;> norm_num [Point.sub_eq_toVec_sub, Point.toVec, Vec.basisX, Vec.basisY]
  have hside : Scalar.tolerance < ((2 : ℝ) • (Vec.basisX : Vec ℝ)).length := by
    rw [Vec.length_smul, hx, Scalar.tolerance_exact]
    norm_num
  have hskew : Scalar.tolerance < ((6 : ℝ) • (Vec.basisZ : Vec ℝ)).length := by
    rw [Vec.length_smul, hz, Scalar.tolerance_exact]
    norm_num
  rw [← hfirst] at hside
  rw [← hcross] at hskew
  have hworld : s.frame = .world := by
    rw [hframe, Frame.throughPoints_of_lt hside hskew, Frame.spanned, hfirst,
      Vec.normalized_smul two_pos, Vec.normalized_of_length_eq_one hx, hacross,
      Vec.normalized_smul three_pos, Vec.normalized_of_length_eq_one hy,
      Vec.rightHanded_basis.x_cross_y]
    rfl
  have hwhole : s = ⟨.world, (-1, 2), (0, 3)⟩ := by
    rw [hframe] at hworld
    rw [← hs]
    norm_num [throughPoints, hworld, Frame.coordinates_world, extent]
  obtain ⟨-, -, hplace, hcorners⟩ := hexact s ⟨3, 2⟩ hf
  have hmiddle := hplace 1 1 (by decide) (by decide)
  have hcorner := hcorners (by decide) (by decide) (s.frame.pointAt s.u.2 s.v.2 0)
    ⟨_, Or.inr rfl, _, Or.inr rfl, rfl⟩
  have hfar : s.frame.pointAt s.u.2 s.v.2 0 = ⟨2, 3, 0⟩ := by
    rw [← Frame.coordinates_world (s.frame.pointAt s.u.2 s.v.2 0), ← hworld,
      hf.coordinates_pointAt, hwhole]
  have hhalf : (⟨s.u.1 + (1 : ℕ) * spacing s.u 3, s.v.1 + (1 : ℕ) * spacing s.v 2, 0⟩ : Point ℝ) =
      ⟨1 / 2, 3, 0⟩ := by
    rw [hwhole]
    norm_num [spacing]
  refine ⟨s, hs.symm, hwhole, hf, hskew, (hinside hskew _ (by simp)).2,
    (hgrid s ⟨3, 2⟩).2 2 1 (by decide) (by decide), hmiddle.trans hhalf, ?_⟩
  rwa [hfar] at hcorner

end Section

end FieldGeometry
