import FieldGeometry.Frame.Motion
import FieldGeometry.Proofs.LeastSquares

/-!
# Reordered and moved points

The plane fitted to points depends on the points, not on the order in which they are listed nor on
where the origin lies.

**Order.**  The centroid and the scatter tensor are sums, and the deviation is a greatest number, so
none of them changes with the order.  The first point of the list gives the first axis, but the
diagonalisation does not see it (`leastScatter_perm`).

**Place.**  When all points move by one vector their centroid moves with them, and the offsets from
it stay.  The fit looks at the offsets only (`leastScatter_shifted`).
-/

namespace FieldGeometry

namespace Frame

/-- A moved frame sees moved points as before. -/
theorem coordinates_withOrigin_add (f : Frame ℝ) (p : Point ℝ) (d : Vec ℝ) :
    (f.withOrigin (f.origin + d)).coordinates (p + d) = f.coordinates p := by
  have hoffset : (p + d) - (f.origin + d) = p - f.origin := Point.add_vec_sub_add_vec p f.origin d
  unfold coordinates withOrigin
  rw [hoffset]

theorem ofAxes_add (o : Point ℝ) (d x y z : Vec ℝ) :
    ofAxes (o + d) x y z = (ofAxes o x y z).withOrigin ((ofAxes o x y z).origin + d) := by
  rfl

end Frame

namespace Point

variable {ps qs : List (Point ℝ)}

theorem centroid?_perm (h : ps.Perm qs) : centroid? ps = centroid? qs := by
  unfold centroid?
  rw [Vec.sum_exact, Vec.sum_exact, (h.map toVec).sum_eq, h.length_eq, h.isEmpty_eq]

/-- The sum of moved points counts the movement once for each of them. -/
theorem sum_toVec_shifted (ps : List (Point ℝ)) (d : Vec ℝ) :
    ((ps.map fun p : Point ℝ => p + d).map toVec).sum =
      (ps.map toVec).sum + (ps.length : ℝ) • d := by
  induction ps with
  | nil =>
      simp
  | cons p ps ih =>
      have hhead : (p + d).toVec = p.toVec + d := by
        rfl
      rw [List.map_cons, List.map_cons, List.sum_cons, ih, hhead, List.map_cons, List.sum_cons,
        List.length_cons, Nat.cast_succ]
      module

/-- The centroid moves with the points. -/
theorem centroid?_shifted (ps : List (Point ℝ)) (d : Vec ℝ) :
    centroid? (ps.map fun p : Point ℝ => p + d) =
      (centroid? ps).map fun p : Point ℝ => p + d := by
  by_cases hne : ps = []
  · rw [hne]
    rfl
  · have hlength : (ps.length : ℝ) ≠ 0 := by
      simpa using hne
    have hmove : ∀ v : Vec ℝ, ofVec (v + d) = ofVec v + d := fun _ => rfl
    rw [centroid?_of_ne_nil hne, centroid?_of_ne_nil (by simpa using hne), List.length_map,
      sum_toVec_shifted, smul_add, smul_smul, inv_mul_cancel₀ hlength, one_smul, hmove,
      Option.map_some]

end Point

namespace PlaneFit

section Order

variable {ps qs : List (Point ℝ)}

theorem scatter_perm (c : Point ℝ) (h : ps.Perm qs) : scatter c ps = scatter c qs := by
  rw [scatter_eq_sum, scatter_eq_sum, (h.map _).sum_eq]

/-- The largest distance from a plane depends on the plane and on which points there are. -/
theorem largestDistance_perm
    {f g : Frame ℝ}
    (horigin : f.origin = g.origin)
    (hnormal : f.zAxis = g.zAxis)
    (h : ps.Perm qs) :
    largestDistance f ps = largestDistance g qs := by
  have hheight : ∀ p, (f.coordinates p).z = (g.coordinates p).z := by
    intro p
    show (p - f.origin).dot f.zAxis = (p - g.origin).dot g.zAxis
    rw [horigin, hnormal]
  have hgreatest := Scalar.isGreatest_foldl_maxNum 0
    (ps.map fun p => Scalar.abs (f.coordinates p).z)
  have hsame : {y | y ∈ 0 :: ps.map fun p => Scalar.abs (f.coordinates p).z} =
      {y | y ∈ 0 :: qs.map fun p => Scalar.abs (g.coordinates p).z} := by
    ext y
    simp only [hheight]
    exact ((h.map _).cons 0).mem_iff
  rw [hsame] at hgreatest
  exact hgreatest.unique (Scalar.isGreatest_foldl_maxNum 0 _)

/-- Whichever point leads and whatever the order, the plane and the deviation are the same. -/
theorem leastScatter_perm
    (c lead first : Point ℝ)
    (h : ps.Perm qs) :
    (leastScatter c first qs).frame.origin = (leastScatter c lead ps).frame.origin ∧
      (leastScatter c first qs).frame.zAxis = (leastScatter c lead ps).frame.zAxis ∧
      (leastScatter c first qs).deviation = (leastScatter c lead ps).deviation := by
  unfold leastScatter
  rw [scatter_perm c h]
  dsimp only
  split_ifs with hclustered
  · exact ⟨rfl, rfl, rfl⟩
  · exact ⟨rfl, rfl, largestDistance_perm rfl rfl h.symm⟩

end Order

section Place

variable (fit : PlaneFit ℝ) (c lead : Point ℝ) (ps : List (Point ℝ)) (d : Vec ℝ)

/-- The fit with its origin moved. -/
noncomputable def shifted : PlaneFit ℝ :=
  ⟨fit.frame.withOrigin (fit.frame.origin + d), fit.deviation⟩

theorem scatter_shifted : scatter (c + d) (ps.map fun p : Point ℝ => p + d) = scatter c ps := by
  unfold scatter
  rw [List.map_map]
  congr 1
  apply List.map_congr_left
  intro p _
  rw [Function.comp_apply, Point.add_vec_sub_add_vec]

theorem largestDistance_shifted (f : Frame ℝ) :
    largestDistance (f.withOrigin (f.origin + d)) (ps.map fun p : Point ℝ => p + d) =
      largestDistance f ps := by
  unfold largestDistance
  rw [List.map_map]
  congr 1
  apply List.map_congr_left
  intro p _
  rw [Function.comp_apply, Frame.coordinates_withOrigin_add]

theorem leastScatter_shifted :
    leastScatter (c + d) (lead + d) (ps.map fun p : Point ℝ => p + d) =
      (leastScatter c lead ps).shifted d := by
  unfold leastScatter
  rw [scatter_shifted]
  dsimp only
  split_ifs with hclustered
  · rfl
  · rw [Point.add_vec_sub_add_vec, Frame.ofAxes_add, largestDistance_shifted]
    rfl

/-- The fit moves with the points. -/
theorem ofPoints_shifted (hne : ps ≠ []) :
    ofPoints (ps.map fun p : Point ℝ => p + d) = (ofPoints ps).shifted d := by
  obtain _ | ⟨p, _ | ⟨q, _ | ⟨r, rest⟩⟩⟩ := ps
  · exact absurd rfl hne
  · rfl
  · have hdirection : (q + d) - (p + d) = q - p := Point.add_vec_sub_add_vec q p d
    simp only [List.map_cons, List.map_nil, ofPoints, hdirection]
    rfl
  · obtain ⟨c, hc⟩ := Point.exists_centroid (List.cons_ne_nil p (q :: r :: rest))
    have hmoved := Point.centroid?_shifted (p :: q :: r :: rest) d
    rw [hc, Option.map_some] at hmoved
    have hfit : ofPoints (p :: q :: r :: rest) = leastScatter c p (p :: q :: r :: rest) := by
      rw [ofPoints, hc]
      all_goals simp
    rw [hfit, ← leastScatter_shifted]
    simp only [List.map_cons] at hmoved ⊢
    rw [ofPoints, hmoved]
    all_goals simp

end Place

/-- The fits of three points or more in any order have the same plane and the same deviation. -/
theorem ofPoints_perm
    {ps qs : List (Point ℝ)}
    (hcount : 3 ≤ ps.length)
    (h : ps.Perm qs) :
    (ofPoints qs).frame.origin = (ofPoints ps).frame.origin ∧
      (ofPoints qs).frame.zAxis = (ofPoints ps).frame.zAxis ∧
      (ofPoints qs).deviation = (ofPoints ps).deviation := by
  have hne : ps ≠ [] := by
    rintro rfl
    simp at hcount
  obtain ⟨c, hc⟩ := Point.exists_centroid hne
  obtain ⟨lead, -, hps⟩ := ofPoints_of_three_le hcount hc
  obtain ⟨first, -, hqs⟩ :=
    ofPoints_of_three_le (h.length_eq ▸ hcount) (Point.centroid?_perm h ▸ hc)
  rw [hps, hqs]
  exact leastScatter_perm c lead first h

/-- **The fit depends on the points only.**  Three points or more have, in whatever order they are
listed, one plane, with the same origin and normal, and one deviation.  When the points of a list
that is not empty move by one vector, the origin of their fit moves by it, and the axes and the
deviation stay. -/
theorem ofPoints_invariant :
    (∀ ps qs : List (Point ℝ), 3 ≤ ps.length → ps.Perm qs →
      (ofPoints qs).frame.origin = (ofPoints ps).frame.origin ∧
      (ofPoints qs).frame.zAxis = (ofPoints ps).frame.zAxis ∧
      (ofPoints qs).deviation = (ofPoints ps).deviation) ∧
    ∀ (ps : List (Point ℝ)) (d : Vec ℝ), ps ≠ [] →
      ofPoints (ps.map fun p : Point ℝ => p + d) =
        ⟨(ofPoints ps).frame.withOrigin ((ofPoints ps).frame.origin + d),
          (ofPoints ps).deviation⟩ :=
  ⟨fun _ _ hcount h => ofPoints_perm hcount h, fun ps d hne => ofPoints_shifted ps d hne⟩

/-- Four points of a tilted plane, listed backwards and moved upwards. -/
theorem ofPoints_invariant_tiltedCross :
    3 ≤ tiltedCross.length ∧
    tiltedCross.Perm tiltedCross.reverse ∧
    (ofPoints tiltedCross.reverse).frame.zAxis = (ofPoints tiltedCross).frame.zAxis ∧
    (ofPoints tiltedCross.reverse).deviation = (ofPoints tiltedCross).deviation ∧
    tiltedCross ≠ [] ∧
    (ofPoints (tiltedCross.map fun p : Point ℝ => p + (Vec.basisZ : Vec ℝ))).frame.origin =
      (ofPoints tiltedCross).frame.origin + (Vec.basisZ : Vec ℝ) ∧
    (ofPoints (tiltedCross.map fun p : Point ℝ => p + (Vec.basisZ : Vec ℝ))).frame.xAxis =
      (ofPoints tiltedCross).frame.xAxis := by
  have hcount : 3 ≤ tiltedCross.length := by
    simp [tiltedCross]
  have hperm : tiltedCross.Perm tiltedCross.reverse := (List.reverse_perm _).symm
  have hne : tiltedCross ≠ [] := List.cons_ne_nil _ _
  obtain ⟨-, hnormal, hdeviation⟩ := ofPoints_invariant.1 _ _ hcount hperm
  have hmoved := ofPoints_invariant.2 tiltedCross Vec.basisZ hne
  refine ⟨hcount, hperm, hnormal, hdeviation, hne, ?_, ?_⟩
  · rw [hmoved]
    rfl
  · rw [hmoved]
    rfl

end PlaneFit

end FieldGeometry
