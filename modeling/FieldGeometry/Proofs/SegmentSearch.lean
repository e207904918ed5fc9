import FieldGeometry.Proofs.SearchTrace

/-!
# Searching a segment

Along a segment that is not negligible the squared distance to a point is a parabola in the fraction
(`Segment.distanceSq_pointAt`).  Its least point, held within `0` and `1`, is the fraction at which
the segment comes nearest, and of two fractions the one nearer to it gives the nearer point
(`Segment.distanceSq_pointAt_le_iff`).  So `Segment.nearest` is the one nearest point, and sampling
the segment is sampling the distance from that fraction.

For the search this gives an invariant: the first nearest place so far is at most `Search.accuracy`
away from the fraction.  That is less than the radius of the window that comes next, so the window
contains the fraction, and one of its eleven parameters is within a tenth of the radius
(`exists_window_near`).
-/

namespace FieldGeometry

namespace Search

/-- Every number of a window is within a tenth of its radius of one of its parameters. -/
theorem exists_window_near
    {centre radius x : ℝ}
    (hcentre : centre ∈ Set.Icc (0 : ℝ) 1)
    (hx : x ∈ Set.Icc (0 : ℝ) 1)
    (hnear : |centre - x| ≤ radius) :
    ∃ t ∈ window centre radius, |t - x| ≤ radius / 10 := by
  obtain ⟨hc₀, hc₁⟩ := hcentre
  obtain ⟨hx₀, hx₁⟩ := hx
  obtain ⟨hbelow, habove⟩ := abs_le.mp hnear
  let lo := max (centre - radius) 0
  let hi := min (centre + radius) 1
  have hlo : lo ≤ x := max_le (by linarith) hx₀
  have hhi : x ≤ hi := le_min (by linarith) hx₁
  have hwidth : hi - lo ≤ 2 * radius := by
    have hhi' : hi ≤ centre + radius := min_le_left _ _
    have hlo' : centre - radius ≤ lo := le_max_left _ _
    linarith
  -- the parameters of a window are eleven coarse ones, carried into it
  have hfraction : (x - lo) / (hi - lo) * (hi - lo) = x - lo :=
    div_mul_cancel_of_imp fun hzero => by linarith
  obtain ⟨t, ht, hclose⟩ := exists_coarse_near (n := 11) (x := (x - lo) / (hi - lo)) (by norm_num)
    ⟨div_nonneg (by linarith) (by linarith), div_le_one_of_le₀ (by linarith) (by linarith)⟩
  obtain ⟨j, hj, rfl⟩ := mem_coarse_iff.mp ht
  norm_num at hclose
  refine ⟨lo + (hi - lo) * j / 10, mem_window_iff.mpr ⟨j, hj, rfl⟩, ?_⟩
  calc |lo + (hi - lo) * j / 10 - x|
      = |((j : ℝ) / 10 - (x - lo) / (hi - lo)) * (hi - lo)| := by
        rw [sub_mul ((j : ℝ) / 10) _ (hi - lo), hfraction]
        congr 1
        ring
    _ = |(j : ℝ) / 10 - (x - lo) / (hi - lo)| * (hi - lo) := by
        rw [abs_mul, abs_of_nonneg (show 0 ≤ hi - lo by linarith)]
    _ ≤ 1 / 20 * (2 * radius) := mul_le_mul hclose hwidth (by linarith) (by norm_num)
    _ = radius / 10 := by ring

/-- How far from the nearest fraction a search of a segment ends at most. -/
noncomputable def accuracy (n : ℕ) : ℕ → ℝ
  | 0 => 1 / ((2 : ℕ) * ((n : ℝ) - 1))
  | rounds + 1 => 1 / ((10 * n * 2 ^ rounds : ℕ) : ℝ)

theorem accuracy_zero (n : ℕ) : accuracy n 0 = 1 / (2 * ((n : ℝ) - 1)) := by
  rw [accuracy, Nat.cast_ofNat]

theorem accuracy_succ (n rounds : ℕ) :
    accuracy n (rounds + 1) = 1 / (10 * n * 2 ^ rounds) := by
  rw [accuracy]
  push_cast
  rfl

/-- The window that comes next reaches as far as the search may be off. -/
theorem accuracy_le_radius
    {n : ℕ}
    (hn : 2 ≤ n)
    (rounds : ℕ) :
    accuracy n rounds ≤ 1 / (n * 2 ^ rounds) := by
  have hcast : (2 : ℝ) ≤ n := by exact_mod_cast hn
  cases rounds with
  | zero =>
      rw [accuracy_zero, pow_zero, mul_one]
      exact one_div_le_one_div_of_le (by linarith) (by linarith)
  | succ rounds =>
      have hpos : (0 : ℝ) < n * 2 ^ rounds := by positivity
      rw [accuracy_succ, pow_succ]
      exact one_div_le_one_div_of_le (by linarith) (by linarith)

/-- In exact arithmetic all parameters that are visited lie between `0` and `1`, and the radius is
halved with every round. -/
theorem visits_exact
    {curve : Curve ℝ}
    {query : Point ℝ}
    {n rounds : ℕ}
    {ts : List ℝ}
    {radius : ℝ}
    (h : Visits curve query n rounds ts radius) :
    (∀ t ∈ ts, t ∈ Set.Icc (0 : ℝ) 1) ∧ radius = 1 / (n * 2 ^ rounds) := by
  induction h with
  | coarse =>
      exact ⟨fun t ht => mem_unit_of_mem_coarse ht, by rw [pow_zero, mul_one]⟩
  | @window rounds ts radius q h hq ih =>
      obtain ⟨hts, rfl⟩ := ih
      refine ⟨fun t ht => ?_, ?_⟩
      · rcases List.mem_append.mp ht with ht | ht
        · exact hts t ht
        · exact mem_unit_of_mem_window (hts _ hq.mem) (by positivity) ht
      · rw [Scalar.half_exact, pow_succ, ← mul_assoc, one_div_mul_one_div]

end Search

namespace Segment

section Parabola

variable (s : Segment ℝ) (p : Point ℝ)

/-- The fraction at which the line through the segment comes nearest to a point. -/
noncomputable def foot : ℝ :=
  (p - s.start).dot s.direction / s.direction.dot s.direction

theorem nearestFraction_eq : s.nearestFraction p = min (max (s.foot p) 0) 1 := by
  rw [nearestFraction, Scalar.clamp_exact]
  rfl

theorem nearestFraction_mem : s.nearestFraction p ∈ Set.Icc (0 : ℝ) 1 := by
  rw [nearestFraction_eq]
  exact ⟨le_min (le_max_right _ _) zero_le_one, min_le_right _ _⟩

variable {s} (hpos : 0 < s.direction.dot s.direction)

include hpos

/-- Along a segment the squared distance is a parabola about the foot. -/
theorem distanceSq_pointAt (t : ℝ) :
    (s.pointAt t).distanceSq p =
      s.direction.dot s.direction * (t - s.foot p) ^ 2 +
        ((p - s.start).dot (p - s.start) -
          (p - s.start).dot s.direction ^ 2 / s.direction.dot s.direction) := by
  have hoffset : s.pointAt t - p = t • s.direction - (p - s.start) := by
    have hpoint : (s.pointAt t).toVec = s.start.toVec + t • s.direction := rfl
    rw [Point.sub_eq_toVec_sub, Point.sub_eq_toVec_sub, hpoint]
    module
  rw [Point.distanceSq, hoffset, Vec.lengthSq_eq, foot]
  simp only [Vec.sub_dot, Vec.dot_sub, Vec.smul_dot, Vec.dot_smul,
    Vec.dot_comm s.direction (p - s.start)]
  field_simp
  ring

end Parabola

/-- Between `0` and `1` the distance from a number is the distance from its clamped number and on.
-/
theorem abs_sub_eq_add_clamped
    {t : ℝ}
    (ht : t ∈ Set.Icc (0 : ℝ) 1)
    (x : ℝ) :
    |t - x| = |t - min (max x 0) 1| + |min (max x 0) 1 - x| := by
  obtain ⟨ht₀, ht₁⟩ := ht
  rcases le_total x 0 with hbelow | hx₀
  · rw [max_eq_right hbelow, min_eq_left zero_le_one, sub_zero, abs_of_nonneg ht₀,
      abs_of_nonneg (by linarith), abs_of_nonneg (by linarith)]
    ring
  · rw [max_eq_left hx₀]
    rcases le_total x 1 with hx₁ | habove
    · rw [min_eq_left hx₁, sub_self, abs_zero, add_zero]
    · rw [min_eq_right habove, abs_of_nonpos (by linarith), abs_of_nonpos (by linarith),
        abs_of_nonpos (by linarith)]
      ring

section Nearest

variable {s : Segment ℝ} {p : Point ℝ} (hpos : 0 < s.direction.dot s.direction) {t u : ℝ}

include hpos

/-- Of two points of a segment the one whose fraction is nearer to the nearest fraction is nearer.
-/
theorem distanceSq_pointAt_le_iff
    (ht : t ∈ Set.Icc (0 : ℝ) 1)
    (hu : u ∈ Set.Icc (0 : ℝ) 1) :
    (s.pointAt t).distanceSq p ≤ (s.pointAt u).distanceSq p ↔
      |t - s.nearestFraction p| ≤ |u - s.nearestFraction p| := by
  rw [distanceSq_pointAt p hpos, distanceSq_pointAt p hpos, add_le_add_iff_right,
    mul_le_mul_iff_right₀ hpos, sq_le_sq, abs_sub_eq_add_clamped ht, abs_sub_eq_add_clamped hu,
    add_le_add_iff_right, nearestFraction_eq]

/-- Every other point of the segment is farther than the one at the nearest fraction. -/
theorem length_pointAt_nearestFraction_lt
    (hu : u ∈ Set.Icc (0 : ℝ) 1)
    (hne : u ≠ s.nearestFraction p) :
    (s.pointAt (s.nearestFraction p) - p).length < (s.pointAt u - p).length := by
  apply Real.sqrt_lt_sqrt (Vec.dot_self_nonneg _)
  show (s.pointAt (s.nearestFraction p)).distanceSq p < (s.pointAt u).distanceSq p
  rw [← not_le, distanceSq_pointAt_le_iff hpos hu (s.nearestFraction_mem p), sub_self, abs_zero,
    abs_nonpos_iff, sub_eq_zero]
  exact hne

end Nearest

end Segment

namespace Search

variable {s : Segment ℝ} {p : Point ℝ}

/-- A segment has a place at every fraction. -/
theorem place?_ofSegment (t : ℝ) :
    place? (Curve.ofSegment s) p t = some ⟨t, s.pointAt t, (s.pointAt t).distanceSq p⟩ := by
  rfl

/-- The first nearest place at some fractions has the one that is nearest to the nearest fraction.
-/
theorem FirstNearest.abs_sub_nearestFraction_le
    {ts : List ℝ}
    {q : Placement ℝ}
    {t : ℝ}
    (hpos : 0 < s.direction.dot s.direction)
    (hts : ∀ t ∈ ts, t ∈ Set.Icc (0 : ℝ) 1)
    (h : FirstNearest (Curve.ofSegment s) p ts q)
    (ht : t ∈ ts) :
    |q.t - s.nearestFraction p| ≤ |t - s.nearestFraction p| := by
  have hleast := h.least t ht _ (place?_ofSegment t)
  have hdistance : q.distanceSq = (s.pointAt q.t).distanceSq p :=
    congrArg Placement.distanceSq (Option.some.inj (h.place.symm.trans (place?_ofSegment q.t)))
  rw [hdistance] at hleast
  exact (Segment.distanceSq_pointAt_le_iff hpos (hts _ h.mem) (hts t ht)).mp hleast

/-- A search of a segment comes within its accuracy of the nearest fraction. -/
theorem exists_visited_near
    {n rounds : ℕ}
    {ts : List ℝ}
    {radius : ℝ}
    (hpos : 0 < s.direction.dot s.direction)
    (hn : 2 ≤ n)
    (h : Visits (Curve.ofSegment s) p n rounds ts radius) :
    ∃ t ∈ ts, |t - s.nearestFraction p| ≤ accuracy n rounds := by
  induction h with
  | coarse =>
      rw [accuracy_zero]
      exact exists_coarse_near hn (s.nearestFraction_mem p)
  | @window rounds ts radius q h hq ih =>
      obtain ⟨t, ht, hnear⟩ := ih
      obtain ⟨hts, rfl⟩ := visits_exact h
      -- the window is about the best fraction so far, which is as near as any other
      have hbest : |q.t - s.nearestFraction p| ≤ 1 / (n * 2 ^ rounds) :=
        le_trans (hq.abs_sub_nearestFraction_le hpos hts ht)
          (le_trans hnear (accuracy_le_radius hn rounds))
      obtain ⟨t', ht', hclose⟩ :=
        exists_window_near (hts _ hq.mem) (s.nearestFraction_mem p) hbest
      have htenth : 1 / (n * 2 ^ rounds) / 10 = accuracy n (rounds + 1) := by
        rw [accuracy_succ, div_div]
        ring
      exact ⟨t', List.mem_append_right _ ht', le_of_le_of_eq hclose htenth⟩

end Search

/-- **Searching a segment.**  On a segment longer than the negligible one, the nearest point is the
one at the nearest fraction, which lies between `0` and `1`, and every other point of the segment is
farther.  The search ends within half a step of the coarse fractions from this fraction, and after
at least one round within a tenth of the radius of the last window. -/
theorem Segment.nearest?_accurate
    (s : Segment ℝ)
    (p : Point ℝ)
    (hlong : 1 / 2 ^ 52 < s.direction.lengthSq) :
    (0 ≤ s.nearestFraction p ∧ s.nearestFraction p ≤ 1) ∧
    s.nearest p = s.start.lerp s.stop (s.nearestFraction p) ∧
    (∀ u : ℝ, 0 ≤ u → u ≤ 1 → u ≠ s.nearestFraction p →
      (s.nearest p - p).length < (s.start.lerp s.stop u - p).length) ∧
    (∀ options : Search.Options, ∃ q,
      (Path.segment s).toCurve.nearest? p options = some q ∧
      (options.rounds = 0 →
        |q.t - s.nearestFraction p| ≤
          1 / (2 * (((max options.sampleCount 8 : ℕ) : ℝ) - 1))) ∧
      (1 ≤ options.rounds →
        |q.t - s.nearestFraction p| ≤
          1 / (10 * ((max options.sampleCount 8 : ℕ) : ℝ) * 2 ^ (options.rounds - 1)))) := by
  have hpos : 0 < s.direction.dot s.direction := lt_trans (by norm_num) hlong
  have hnearest : s.nearest p = s.pointAt (s.nearestFraction p) := by
    refine if_neg (not_le.mpr ?_)
    rw [negligibleSq, Scalar.ratio_exact]
    exact lt_of_eq_of_lt (by norm_num) hlong
  refine ⟨s.nearestFraction_mem p, hnearest, fun u hu₀ hu₁ hne => ?_, fun options => ?_⟩
  · rw [hnearest]
    exact length_pointAt_nearestFraction_lt hpos ⟨hu₀, hu₁⟩ hne
  · have hcount : 2 ≤ options.coarseCount := le_trans (by norm_num) (le_max_right _ 8)
    have hzero : (0 : ℝ) ∈ Search.coarse options.coarseCount :=
      Search.mem_coarse_iff.mpr ⟨0, by omega, by simp⟩
    obtain ⟨q, hq, -⟩ := Search.exists_nearest? p hzero
      (show (Curve.ofSegment s).pointAt 0 = some (s.pointAt 0) from rfl)
    obtain ⟨ts, radius, hvisits, hfirst⟩ := Search.nearest?_eq_some_iff.mp hq
    obtain ⟨t, ht, hnear⟩ := Search.exists_visited_near hpos hcount hvisits
    have hle : |q.t - s.nearestFraction p| ≤ Search.accuracy options.coarseCount options.rounds :=
      le_trans (hfirst.abs_sub_nearestFraction_le hpos (Search.visits_exact hvisits).1 ht) hnear
    refine ⟨q, hq, fun hrounds => ?_, fun hrounds => ?_⟩
    · rwa [hrounds, Search.accuracy_zero] at hle
    · rwa [← Nat.sub_add_cancel hrounds, Search.accuracy_succ] at hle

/-- A segment of length two. -/
def Segment.ofLengthTwo : Segment ℝ where
  start := ⟨-1, 0, 0⟩
  stop := ⟨1, 0, 0⟩

/-- The default search finds the middle of a segment, seen from beside it, up to a ten-thousandth.
-/
theorem Segment.nearest?_accurate_ofLengthTwo :
    1 / 2 ^ 52 < ofLengthTwo.direction.lengthSq ∧
    ∃ q, (Path.segment ofLengthTwo).toCurve.nearest? ⟨0, 1, 0⟩ {} = some q ∧
      |q.t - 1 / 2| ≤ 1 / 10240 := by
  have hlengthSq : ofLengthTwo.direction.lengthSq = 4 := by
    simp [ofLengthTwo, direction, Point.sub_eq_toVec_sub, Point.toVec, Vec.lengthSq_eq, Vec.dot_eq]
    norm_num
  have hmiddle : ofLengthTwo.nearestFraction ⟨0, 1, 0⟩ = 1 / 2 := by
    rw [nearestFraction, hlengthSq]
    simp [ofLengthTwo, direction, Point.sub_eq_toVec_sub, Point.toVec, Vec.dot_eq]
    norm_num
  have hlong : 1 / 2 ^ 52 < ofLengthTwo.direction.lengthSq := by
    rw [hlengthSq]
    norm_num
  obtain ⟨-, -, -, hsearch⟩ := nearest?_accurate ofLengthTwo ⟨0, 1, 0⟩ hlong
  obtain ⟨q, hq, -, haccurate⟩ := hsearch {}
  rw [hmiddle] at haccurate
  refine ⟨hlong, q, hq, le_trans (haccurate (by norm_num)) ?_⟩
  norm_num

end FieldGeometry
