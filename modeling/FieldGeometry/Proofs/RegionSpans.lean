import FieldGeometry.Moment
import FieldGeometry.Proofs.EvaluationBounds
import FieldGeometry.Proofs.InputForms
import FieldGeometry.Proofs.PlaneCoordinates
import Mathlib.Analysis.Convex.Basic

/-!
# Regions between two corners

A region is built from two opposite corners of a box, in the coordinates of a frame.  The order of
the corners does not matter, both are in the region, and with two points the region holds whatever
lies between them (`Region.Spans`).  None of this needs a frame with orthonormal axes: taking
coordinates is affine (`Frame.coordinates_lerp`), and a box is an interval in each coordinate.

**Values.**  A region is read from a list of two corners, which a frame may come before.  Such a
list may stand in lists of its own, and so may each corner (`Pin.HoldsCorners`).  Every value that
is read as a region has this form, and exchanging its corners does not change the region.
-/

namespace FieldGeometry

namespace Frame

/-- Coordinates are affine. -/
theorem coordinates_lerp (f : Frame ℝ) (p q : Point ℝ) (t : ℝ) :
    f.coordinates (p.lerp q t) = (f.coordinates p).lerp (f.coordinates q) t := by
  ext <;> simp only [coordinates, Point.lerp, Point.sub_eq_toVec_sub, Point.toVec, Vec.dot_eq,
    Vec.sub_x, Vec.sub_y, Vec.sub_z] <;> ring

end Frame

/-- The number lies between two others, or at most `softening` outside. -/
def AlmostBetween (a b x : ℝ) : Prop :=
  min a b ≤ x + softening ∧ x ≤ max a b + softening

section Between

variable (a b : ℝ)

theorem almostBetween_left : AlmostBetween a b a :=
  ⟨le_add_of_le_of_nonneg (min_le_left a b) (le_of_lt softening_pos),
    le_add_of_le_of_nonneg (le_max_left a b) (le_of_lt softening_pos)⟩

theorem almostBetween_right : AlmostBetween a b b :=
  ⟨le_add_of_le_of_nonneg (min_le_right a b) (le_of_lt softening_pos),
    le_add_of_le_of_nonneg (le_max_right a b) (le_of_lt softening_pos)⟩

end Between

namespace Box

/-- A box holds the points whose coordinates lie in its three intervals, widened on both sides. -/
theorem contains_iff (box : Box ℝ) (eps : ℝ) (p : Point ℝ) :
    box.contains eps p = true ↔
      p.x ∈ Set.Icc (box.min.x - eps) (box.max.x + eps) ∧
      p.y ∈ Set.Icc (box.min.y - eps) (box.max.y + eps) ∧
      p.z ∈ Set.Icc (box.min.z - eps) (box.max.z + eps) := by
  simp only [contains, decide_eq_true_eq, Set.mem_Icc, and_assoc]

/-- The order of the corners does not matter. -/
theorem spanning_comm (a b : Point ℝ) : spanning a b = spanning b a := by
  simp only [spanning, Scalar.minNum_exact, Scalar.maxNum_exact, min_comm, max_comm]

/-- With two points a box holds whatever lies between them. -/
theorem contains_lerp
    {box : Box ℝ}
    {eps t : ℝ}
    {p q : Point ℝ}
    (hp : box.contains eps p = true)
    (hq : box.contains eps q = true)
    (ht : t ∈ Set.Icc (0 : ℝ) 1) :
    box.contains eps (p.lerp q t) = true := by
  have hbetween : ∀ {lo hi x y : ℝ}, x ∈ Set.Icc lo hi → y ∈ Set.Icc lo hi →
      x + (y - x) * t ∈ Set.Icc lo hi := by
    intro lo hi x y hx hy
    rw [mul_comm]
    exact (convex_Icc lo hi).add_smul_sub_mem hx hy ht
  rw [contains_iff] at hp hq ⊢
  obtain ⟨hpx, hpy, hpz⟩ := hp
  obtain ⟨hqx, hqy, hqz⟩ := hq
  exact ⟨hbetween hpx hqx, hbetween hpy hqy, hbetween hpz hqz⟩

end Box

namespace Region

/-- The region holds two points and with any points whatever lies between them. -/
structure Spans (r : Region ℝ) (a b : Point ℝ) : Prop where
  contains_first : r.contains a = true
  contains_second : r.contains b = true
  convex : ∀ p q : Point ℝ, r.contains p = true → r.contains q = true →
    ∀ t ∈ Set.Icc (0 : ℝ) 1, r.contains (p.lerp q t) = true

section Corners

variable (f : Frame ℝ) (a b : Point ℝ)

/-- The region between two corners holds the points whose coordinates lie between those of the
corners, and those at most `softening` outside. -/
theorem contains_inFrame_iff (p : Point ℝ) :
    (inFrame f a b).contains p = true ↔
      AlmostBetween (f.coordinates a).x (f.coordinates b).x (f.coordinates p).x ∧
      AlmostBetween (f.coordinates a).y (f.coordinates b).y (f.coordinates p).y ∧
      AlmostBetween (f.coordinates a).z (f.coordinates b).z (f.coordinates p).z := by
  rw [contains, Box.contains_iff]
  simp only [inFrame, Box.spanning, Scalar.minNum_exact, Scalar.maxNum_exact, Set.mem_Icc,
    sub_le_iff_le_add, AlmostBetween]

theorem inFrame_comm : inFrame f a b = inFrame f b a := by
  rw [inFrame, Box.spanning_comm, ← inFrame]

theorem inFrame_spans : (inFrame f a b).Spans a b := by
  refine ⟨?_, ?_, ?_⟩
  · rw [contains_inFrame_iff]
    exact ⟨almostBetween_left _ _, almostBetween_left _ _, almostBetween_left _ _⟩
  · rw [contains_inFrame_iff]
    exact ⟨almostBetween_right _ _, almostBetween_right _ _, almostBetween_right _ _⟩
  · intro p q hp hq t ht
    rw [contains, Frame.coordinates_lerp]
    exact Box.contains_lerp hp hq ht

/-- A region along the coordinate axes is one in their frame. -/
theorem world_eq_inFrame : world a b = inFrame .world a b := by
  rw [world, inFrame, Frame.coordinates_world, Frame.coordinates_world]

theorem contains_world_iff (p : Point ℝ) :
    (world a b).contains p = true ↔
      AlmostBetween a.x b.x p.x ∧ AlmostBetween a.y b.y p.y ∧ AlmostBetween a.z b.z p.z := by
  rw [world_eq_inFrame, contains_inFrame_iff, Frame.coordinates_world, Frame.coordinates_world,
    Frame.coordinates_world]

theorem world_comm : world a b = world b a := by
  rw [world_eq_inFrame, inFrame_comm, ← world_eq_inFrame]

theorem world_spans : (world a b).Spans a b := by
  rw [world_eq_inFrame]
  exact inFrame_spans .world a b

end Corners

end Region

namespace Pin

section Corners

variable {α δ : Type} [Scalar α]

/-- The value is a list of two corners, which a frame may come before, inside any number of lists of
its own. -/
inductive HoldsCorners : Option (Frame α) → Value α δ → Value α δ → Value α δ → Prop
  | bare (a b : Value α δ) : HoldsCorners none a b (.list [a, b])
  | framed (f : Frame α) (a b : Value α δ) : HoldsCorners (some f) a b (.list [.frame f, a, b])
  | wrapped {lead : Option (Frame α)} {a b v : Value α δ} (h : HoldsCorners lead a b v) :
      HoldsCorners lead a b (.list [v])

/-- The region between two corners, along the axes of a repaired frame or the coordinate axes. -/
def regionBetween (lead : Option (Frame α)) (p q : Point α) : Region α :=
  match lead with
  | none => .world p q
  | some f => .inFrame (repair f) p q

variable {lead : Option (Frame α)} {a b v : Value α δ}

/-- Two corners are read when both are finite points. -/
theorem corners_eq_ok_iff {c : Point α × Point α} :
    corners a b = .ok c ↔ point (some a) = .ok (some c.1) ∧ point (some b) = .ok (some c.2) := by
  obtain ⟨p, q⟩ := c
  constructor
  · intro h
    obtain ⟨p?, hp, h⟩ := exists_of_bind_eq_ok h
    obtain ⟨q?, hq, h⟩ := exists_of_bind_eq_ok h
    cases p? with
    | none => cases h
    | some p' =>
        cases q? with
        | none => cases h
        | some q' =>
            cases h
            exact ⟨hp, hq⟩
  · rintro ⟨hp, hq⟩
    simp only [corners, hp, hq]
    rfl

/-- However deep they stand, two corners are read as the region between them. -/
theorem region_of_holdsCorners (h : HoldsCorners lead a b v) :
    region (some v) = (corners a b).map fun c => some (regionBetween lead c.1 c.2) := by
  induction h with
  | bare a b =>
      show regionOf (.list [a, b]) = _
      rw [regionOf]
      cases corners a b <;> rfl
  | framed f a b =>
      show regionOf (.list [.frame f, a, b]) = _
      rw [regionOf]
      cases corners a b <;> rfl
  | wrapped _ ih =>
      rw [← ih]
      exact (alike_wrap _).region

/-- Nothing else is read as a region. -/
theorem exists_holdsCorners
    {r : Region α}
    (h : region (some v) = .ok (some r)) :
    ∃ lead a b, HoldsCorners lead a b v := by
  change regionOf v = .ok (some r) at h
  fun_induction regionOf v with
  | case1 => cases h
  | case2 => cases h
  | case3 v ih =>
      obtain ⟨lead, a, b, hv⟩ := ih h
      exact ⟨lead, a, b, hv.wrapped⟩
  | case4 f a b => exact ⟨some f, a, b, .framed f a b⟩
  | case5 a b => exact ⟨none, a, b, .bare a b⟩
  | case6 => cases h
  | case7 => cases h

/-- Two corners are read as a region exactly when both are finite points. -/
theorem region_eq_ok_iff
    (h : HoldsCorners lead a b v)
    {r? : Option (Region α)} :
    region (some v) = .ok r? ↔
      ∃ p q, point (some a) = .ok (some p) ∧ point (some b) = .ok (some q) ∧
        r? = some (regionBetween lead p q) := by
  rw [region_of_holdsCorners h]
  constructor
  · intro hread
    cases hcorners : corners a b with
    | error failure =>
        rw [hcorners] at hread
        cases hread
    | ok c =>
        rw [hcorners] at hread
        obtain ⟨hp, hq⟩ := corners_eq_ok_iff.mp hcorners
        cases hread
        exact ⟨c.1, c.2, hp, hq, rfl⟩
  · rintro ⟨p, q, hp, hq, rfl⟩
    have hcorners : corners a b = .ok (p, q) := corners_eq_ok_iff.mpr ⟨hp, hq⟩
    rw [hcorners]
    rfl

end Corners

section Exact

variable (lead : Option (Frame ℝ)) (p q : Point ℝ)

theorem regionBetween_comm : regionBetween lead p q = regionBetween lead q p := by
  cases lead with
  | none => exact Region.world_comm p q
  | some f => exact Region.inFrame_comm _ p q

theorem regionBetween_spans : (regionBetween lead p q).Spans p q := by
  cases lead with
  | none => exact Region.world_spans p q
  | some f => exact Region.inFrame_spans _ p q

end Exact

end Pin

namespace Region

/-- **A region between two corners.**  Whatever the frame, the order of the corners does not matter,
both are in the region, and with two points it holds whatever lies between them.  The same holds
along the coordinate axes.  In a frame with orthonormal axes, where a point is the one with its
coordinates, the region holds the points of which each coordinate lies between those of the corners,
up to `softening` outside.

A value is read as a region only if it holds two corners, however deep in lists of their own.  Where
it is read, both corners are points, the region is one between them, and any value with the corners
exchanged is read as the same region. -/
theorem spans_corners :
    (∀ (f : Frame ℝ) (a b : Point ℝ), inFrame f a b = inFrame f b a ∧ (inFrame f a b).Spans a b) ∧
    (∀ a b : Point ℝ, world a b = world b a ∧ (world a b).Spans a b) ∧
    (∀ f : Frame ℝ, f.Orthonormal → ∀ a b p : Point ℝ,
      f.pointAt (f.coordinates p).x (f.coordinates p).y (f.coordinates p).z = p ∧
      ((inFrame f a b).contains p = true ↔
        AlmostBetween (f.coordinates a).x (f.coordinates b).x (f.coordinates p).x ∧
        AlmostBetween (f.coordinates a).y (f.coordinates b).y (f.coordinates p).y ∧
        AlmostBetween (f.coordinates a).z (f.coordinates b).z (f.coordinates p).z)) ∧
    (∀ (δ : Type) (v : Value ℝ δ) (r : Region ℝ), Pin.region (some v) = .ok (some r) →
      ∃ lead a b, Pin.HoldsCorners lead a b v) ∧
    (∀ (δ : Type) (lead : Option (Frame ℝ)) (a b v w : Value ℝ δ) (r? : Option (Region ℝ)),
      Pin.HoldsCorners lead a b v → Pin.HoldsCorners lead b a w →
      Pin.region (some v) = .ok r? →
        Pin.region (some w) = .ok r? ∧
        ∃ (r : Region ℝ) (p q : Point ℝ), r? = some r ∧
          Pin.point (some a) = .ok (some p) ∧ Pin.point (some b) = .ok (some q) ∧ r.Spans p q) := by
  refine ⟨?_, ?_, ?_, ?_, ?_⟩
  · intro f a b
    exact ⟨inFrame_comm f a b, inFrame_spans f a b⟩
  · intro a b
    exact ⟨world_comm a b, world_spans a b⟩
  · intro f hf a b p
    exact ⟨hf.pointAt_coordinates p, contains_inFrame_iff f a b p⟩
  · intro δ v r hread
    exact Pin.exists_holdsCorners hread
  · intro δ lead a b v w r? hv hw hread
    obtain ⟨p, q, hp, hq, rfl⟩ := (Pin.region_eq_ok_iff hv).mp hread
    refine ⟨(Pin.region_eq_ok_iff hw).mpr ⟨q, p, hq, hp, ?_⟩, ?_⟩
    · rw [Pin.regionBetween_comm]
    · exact ⟨_, p, q, rfl, hp, hq, Pin.regionBetween_spans lead p q⟩

/-- Two corners of a flat region in a slanted frame, one of them in a list of its own: the region
holds their midpoint, and leaves out a point between them along the coordinate axes. -/
theorem spans_corners_slanted :
    ∃ f : Frame ℝ, f = ⟨⟨1, 0, 0⟩, ⟨1, 0, 0⟩, ⟨0, 4 / 5, -3 / 5⟩, ⟨0, 3 / 5, 4 / 5⟩⟩ ∧
      f.Orthonormal ∧
      Pin.region (some (.list
          [.list [.frame f, .point ⟨1, 0, 0⟩, .list [.point ⟨3, 4, -3⟩]]]) : Pin ℝ Moment) =
        .ok (some (inFrame f ⟨1, 0, 0⟩ ⟨3, 4, -3⟩)) ∧
      Pin.region (some (.list
          [.frame f, .list [.point ⟨3, 4, -3⟩], .point ⟨1, 0, 0⟩]) : Pin ℝ Moment) =
        .ok (some (inFrame f ⟨1, 0, 0⟩ ⟨3, 4, -3⟩)) ∧
      (inFrame f ⟨1, 0, 0⟩ ⟨3, 4, -3⟩).contains
        ((⟨1, 0, 0⟩ : Point ℝ).lerp ⟨3, 4, -3⟩ (1 / 2)) = true ∧
      (inFrame f ⟨1, 0, 0⟩ ⟨3, 4, -3⟩).contains ⟨2, 2, 0⟩ = false := by
  refine ⟨_, rfl, ?_⟩
  generalize hslanted :
    (⟨⟨1, 0, 0⟩, ⟨1, 0, 0⟩, ⟨0, 4 / 5, -3 / 5⟩, ⟨0, 3 / 5, 4 / 5⟩⟩ : Frame ℝ) = f
  have hf : f.Orthonormal := by
    rw [← hslanted]
    constructor <;> norm_num [Vec.length_eq_one_iff, Vec.dot_eq, Vec.cross_eq]
  obtain ⟨hframe, -, hcoordinates, -, hexchanged⟩ := spans_corners
  -- the frame is orthonormal already, so repairing it changes nothing
  have hread : Pin.region
      (some (.list
        [.list [.frame f, .point ⟨1, 0, 0⟩, .list [.point ⟨3, 4, -3⟩]]]) : Pin ℝ Moment) =
        .ok (some (inFrame f ⟨1, 0, 0⟩ ⟨3, 4, -3⟩)) := by
    show Except.ok (some (inFrame (Frame.ofAxes f.origin f.xAxis f.yAxis f.zAxis) _ _)) = _
    rw [Frame.ofAxes_of_orthonormal _ hf]
  have hvalue : Pin.HoldsCorners (some f) (.point ⟨1, 0, 0⟩) (.list [.point ⟨3, 4, -3⟩])
      (.list [.list [.frame f, .point ⟨1, 0, 0⟩, .list [.point ⟨3, 4, -3⟩]]] : Value ℝ Moment) :=
    .wrapped (.framed f _ _)
  have hswapped := (hexchanged _ _ _ _ _ _ _ hvalue (.framed f _ _) hread).1
  have hspans := (hframe f ⟨1, 0, 0⟩ ⟨3, 4, -3⟩).2
  have hmiddle := hspans.convex _ _ hspans.contains_first hspans.contains_second (1 / 2)
    ⟨by norm_num, by norm_num⟩
  refine ⟨hf, hread, hswapped, hmiddle, ?_⟩
  rw [← Bool.not_eq_true, (hcoordinates f hf _ _ _).2]
  rintro ⟨-, -, -, hheight⟩
  -- the point is above the plane in which both corners lie
  rw [← hslanted] at hheight
  have hsmall : (softening : ℝ) = 1 / 1000000000 := softening_exact
  norm_num [Frame.coordinates, Point.sub_eq_toVec_sub, Point.toVec, Vec.dot_eq, hsmall] at hheight

end Region

end FieldGeometry
