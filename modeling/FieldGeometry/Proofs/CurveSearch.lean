import FieldGeometry.Curve.Search
import FieldGeometry.Proofs.ArcLength

/-!
# What a search along a curve finds

The search keeps the best place so far and replaces it by strictly nearer ones only.  Two things
follow for any curve.  Whatever holds of each place it looks at holds of the place it answers
(`foldl_closer_induction`); and as soon as `<` is a strict order, no coarse sample is strictly
nearer than the best one (`exists_foldl_consider`), which refining never makes farther
(`refine_within`).

In exact arithmetic all parameters that are looked at lie between `0` and `1`, and each number of
that interval is within half a step of a coarse one (`exists_coarse_near`).  On a polyline, which is
parameterised by arc length, that makes the answer as near as any point of the polyline, up to half
a step of its length.
-/

namespace FieldGeometry

namespace Search

section Places

variable {α : Type} [Scalar α] (curve : Curve α) (query : Point α)

/-- A place holds the curve's point at its parameter, at a finite distance. -/
theorem place?_eq_some_iff {t : α} {q : Placement α} :
    place? curve query t = some q ↔
      q.t = t ∧ curve.pointAt t = some q.point ∧ q.distanceSq = q.point.distanceSq query ∧
        Scalar.isFinite q.distanceSq = true := by
  unfold place?
  cases curve.pointAt t with
  | none =>
      simp
  | some p =>
      dsimp only
      constructor
      · intro h
        split_ifs at h with hfinite
        cases h
        exact ⟨rfl, rfl, rfl, hfinite⟩
      · rintro ⟨rfl, hpoint, hdistance, hfinite⟩
        cases hpoint
        rw [← hdistance, if_pos hfinite]

theorem closer_eq_or (best : Placement α) (t : α) :
    closer curve query best t = best ∨
      place? curve query t = some (closer curve query best t) := by
  unfold closer
  cases hplace : place? curve query t with
  | none =>
      exact Or.inl rfl
  | some found =>
      dsimp only
      split_ifs with hlt
      · exact Or.inr rfl
      · exact Or.inl rfl

/-- What holds of the best place so far and of every place at some parameters holds of the best
place after these. -/
theorem foldl_closer_induction
    {P : Placement α → Prop}
    {ts : List α}
    {best : Placement α}
    (hbest : P best)
    (hplaces : ∀ t ∈ ts, ∀ q, place? curve query t = some q → P q) :
    P (ts.foldl (closer curve query) best) := by
  refine List.foldlRecOn ts _ hbest fun best hbest t ht => ?_
  rcases closer_eq_or curve query best t with hold | hfound
  · rwa [hold]
  · exact hplaces t ht _ hfound

theorem foldl_consider_some (ts : List α) (best : Placement α) :
    ts.foldl (consider curve query) (some best) =
      some (ts.foldl (closer curve query) best) := by
  induction ts generalizing best with
  | nil =>
      rfl
  | cons t ts ih =>
      exact ih (closer curve query best t)

theorem foldl_consider_induction
    {P : Placement α → Prop}
    {ts : List α}
    {q : Placement α}
    (h : ts.foldl (consider curve query) none = some q)
    (hplaces : ∀ t ∈ ts, ∀ q, place? curve query t = some q → P q) :
    P q := by
  induction ts with
  | nil =>
      cases h
  | cons t ts ih =>
      have hrest : ∀ t ∈ ts, ∀ q, place? curve query t = some q → P q :=
        fun t ht => hplaces t (List.mem_cons_of_mem _ ht)
      have hfirst : consider curve query none t = place? curve query t := rfl
      rw [List.foldl_cons, hfirst] at h
      cases hplace : place? curve query t with
      | none =>
          rw [hplace] at h
          exact ih h hrest
      | some found =>
          rw [hplace, foldl_consider_some] at h
          cases h
          have hfound : P found := hplaces t List.mem_cons_self found hplace
          exact foldl_closer_induction curve query hfound hrest

end Places

section Order

variable {α : Type} [Scalar α] [IsStrictOrder α (· < ·)] (curve : Curve α) (query : Point α)

/-- The best place does not become farther. -/
theorem closer_within
    {d : α}
    {best : Placement α}
    (h : ¬d < best.distanceSq)
    (t : α) :
    ¬d < (closer curve query best t).distanceSq := by
  unfold closer
  cases place? curve query t with
  | none =>
      exact h
  | some found =>
      dsimp only
      split_ifs with hlt
      · intro hfound
        exact h (trans_of (· < ·) hfound hlt)
      · exact h

theorem not_lt_closer
    {t : α}
    {found : Placement α}
    (hplace : place? curve query t = some found)
    (best : Placement α) :
    ¬found.distanceSq < (closer curve query best t).distanceSq := by
  unfold closer
  rw [hplace]
  dsimp only
  split_ifs with hlt
  · exact irrefl_of (· < ·) found.distanceSq
  · exact hlt

theorem foldl_closer_within
    {d : α}
    {best : Placement α}
    (h : ¬d < best.distanceSq)
    (ts : List α) :
    ¬d < (ts.foldl (closer curve query) best).distanceSq := by
  induction ts generalizing best with
  | nil =>
      exact h
  | cons t ts ih =>
      exact ih (closer_within curve query h t)

/-- A search that looks at a place answers one that is not farther. -/
theorem exists_foldl_consider
    {ts : List α}
    {t : α}
    {found : Placement α}
    (ht : t ∈ ts)
    (hplace : place? curve query t = some found) :
    ∃ best, ts.foldl (consider curve query) none = some best ∧
      ¬found.distanceSq < best.distanceSq := by
  obtain ⟨before, after, rfl⟩ := List.append_of_mem ht
  rw [List.foldl_append, List.foldl_cons]
  cases before.foldl (consider curve query) none with
  | none =>
      have hfirst : consider curve query none t = some found := hplace
      rw [hfirst, foldl_consider_some]
      exact ⟨_, rfl, foldl_closer_within curve query (irrefl_of (· < ·) _) after⟩
  | some best =>
      have hnext : consider curve query (some best) t = some (closer curve query best t) := rfl
      rw [hnext, foldl_consider_some]
      exact ⟨_, rfl, foldl_closer_within curve query (not_lt_closer curve query hplace best) after⟩

/-- Refining never makes the best place farther. -/
theorem refine_within
    {d : α}
    {best : Placement α}
    (h : ¬d < best.distanceSq)
    (rounds : ℕ)
    (radius : α) :
    ¬d < (refine curve query rounds radius best).distanceSq := by
  induction rounds generalizing best radius with
  | zero =>
      exact h
  | succ rounds ih =>
      exact ih (foldl_closer_within curve query h _) _

end Order

section Parameters

theorem mem_coarse_iff {n : ℕ} {t : ℝ} :
    t ∈ coarse n ↔ ∃ i < n, t = (i : ℝ) / ((n - 1 : ℕ) : ℝ) := by
  simp [coarse, eq_comm]

theorem mem_window_iff {centre radius t : ℝ} :
    t ∈ window centre radius ↔
      ∃ j < 11, t = max (centre - radius) 0 +
        (min (centre + radius) 1 - max (centre - radius) 0) * (j : ℕ) / 10 := by
  simp [window, eq_comm]

theorem mem_unit_of_mem_coarse
    {n : ℕ}
    {t : ℝ}
    (h : t ∈ coarse n) :
    t ∈ Set.Icc (0 : ℝ) 1 := by
  obtain ⟨i, hi, rfl⟩ := mem_coarse_iff.mp h
  have hle : (i : ℝ) ≤ ((n - 1 : ℕ) : ℝ) := by
    exact_mod_cast Nat.le_sub_one_of_lt hi
  exact ⟨div_nonneg (Nat.cast_nonneg _) (Nat.cast_nonneg _),
    div_le_one_of_le₀ hle (Nat.cast_nonneg _)⟩

/-- The parameters of a window about a parameter between `0` and `1` lie between them too. -/
theorem mem_unit_of_mem_window
    {centre radius t : ℝ}
    (hcentre : centre ∈ Set.Icc (0 : ℝ) 1)
    (hradius : 0 ≤ radius)
    (h : t ∈ window centre radius) :
    t ∈ Set.Icc (0 : ℝ) 1 := by
  obtain ⟨j, hj, rfl⟩ := mem_window_iff.mp h
  obtain ⟨hcentre₀, hcentre₁⟩ := hcentre
  have hlo : 0 ≤ max (centre - radius) 0 := le_max_right _ _
  have hhi : min (centre + radius) 1 ≤ 1 := min_le_right _ _
  have hle : max (centre - radius) 0 ≤ min (centre + radius) 1 := by
    apply max_le
    · exact le_min (by linarith) (by linarith)
    · exact le_min (by linarith) zero_le_one
  have hfraction : (0 : ℝ) ≤ (j : ℝ) / 10 ∧ (j : ℝ) / 10 ≤ 1 := by
    have hj' : (j : ℝ) ≤ 10 := by exact_mod_cast Nat.le_of_lt_succ hj
    constructor
    · positivity
    · linarith
  rw [mul_div_assoc]
  have hwidth := sub_nonneg.mpr hle
  constructor
  · exact add_nonneg hlo (mul_nonneg hwidth hfraction.1)
  · have hstep := mul_le_of_le_one_right hwidth hfraction.2
    linarith

/-- Every number between `0` and `1` is within half a step of a coarse parameter. -/
theorem exists_coarse_near
    {n : ℕ}
    {x : ℝ}
    (hn : 2 ≤ n)
    (hx : x ∈ Set.Icc (0 : ℝ) 1) :
    ∃ t ∈ coarse n, |t - x| ≤ 1 / (2 * ((n : ℝ) - 1)) := by
  obtain ⟨hx₀, hx₁⟩ := hx
  have hcast : ((n - 1 : ℕ) : ℝ) = (n : ℝ) - 1 := by
    rw [Nat.cast_sub (by omega), Nat.cast_one]
  have hpos : (0 : ℝ) < (n : ℝ) - 1 := by
    have htwo : (2 : ℝ) ≤ n := by exact_mod_cast hn
    linarith
  -- the nearest index
  let i := ⌊x * ((n : ℝ) - 1) + 1 / 2⌋₊
  have hscaled : 0 ≤ x * ((n : ℝ) - 1) := mul_nonneg hx₀ (le_of_lt hpos)
  have hbelow : (i : ℝ) ≤ x * ((n : ℝ) - 1) + 1 / 2 := Nat.floor_le (by linarith)
  have habove : x * ((n : ℝ) - 1) + 1 / 2 < i + 1 := Nat.lt_floor_add_one _
  have hin : i < n := by
    have hscaled₁ : x * ((n : ℝ) - 1) ≤ (n : ℝ) - 1 := mul_le_of_le_one_left (le_of_lt hpos) hx₁
    have hlt : (i : ℝ) < n := by linarith
    exact_mod_cast hlt
  refine ⟨(i : ℝ) / ((n : ℝ) - 1), mem_coarse_iff.mpr ⟨i, hin, by rw [hcast]⟩, ?_⟩
  have hoffset : (i : ℝ) / ((n : ℝ) - 1) - x = (i - x * ((n : ℝ) - 1)) / ((n : ℝ) - 1) := by
    field_simp
  have hhalf : |(i : ℝ) - x * ((n : ℝ) - 1)| ≤ 1 / 2 := by
    rw [abs_le]
    constructor
    · linarith
    · linarith
  calc |(i : ℝ) / ((n : ℝ) - 1) - x|
      = |(i : ℝ) - x * ((n : ℝ) - 1)| / ((n : ℝ) - 1) := by
        rw [hoffset, abs_div, abs_of_pos hpos]
    _ ≤ 1 / 2 / ((n : ℝ) - 1) := div_le_div_of_nonneg_right hhalf (le_of_lt hpos)
    _ = 1 / (2 * ((n : ℝ) - 1)) := by rw [div_div]

end Parameters

section Exact

/-- A place found on a curve at a parameter between `0` and `1`. -/
structure OnCurve (curve : Curve ℝ) (query : Point ℝ) (q : Placement ℝ) : Prop where
  parameter : q.t ∈ Set.Icc (0 : ℝ) 1
  place : place? curve query q.t = some q

variable {curve : Curve ℝ} {query : Point ℝ}

theorem onCurve_of_place?
    {t : ℝ}
    {q : Placement ℝ}
    (ht : t ∈ Set.Icc (0 : ℝ) 1)
    (h : place? curve query t = some q) :
    OnCurve curve query q := by
  obtain ⟨rfl, -⟩ := (place?_eq_some_iff curve query).mp h
  exact ⟨ht, h⟩

theorem OnCurve.pointAt
    {q : Placement ℝ}
    (h : OnCurve curve query q) :
    curve.pointAt q.t = some q.point :=
  ((place?_eq_some_iff curve query).mp h.place).2.1

theorem OnCurve.distance
    {q : Placement ℝ}
    (h : OnCurve curve query q) :
    q.distance = (q.point - query).length := by
  obtain ⟨-, -, hdistance, -⟩ := (place?_eq_some_iff curve query).mp h.place
  rw [Placement.distance, hdistance]
  rfl

theorem OnCurve.refine
    {q : Placement ℝ}
    (h : OnCurve curve query q)
    (rounds : ℕ)
    {radius : ℝ}
    (hradius : 0 ≤ radius) :
    OnCurve curve query (refine curve query rounds radius q) := by
  induction rounds generalizing q radius with
  | zero =>
      exact h
  | succ rounds ih =>
      refine ih ?_ (mul_nonneg hradius (by simp))
      refine foldl_closer_induction curve query h fun t ht found hfound => ?_
      exact onCurve_of_place? (mem_unit_of_mem_window h.parameter hradius ht) hfound

/-- A search of a curve that has a point at some coarse parameter answers a place on the curve that
is not farther than this point. -/
theorem exists_nearest?
    (query : Point ℝ)
    {options : Options}
    {t : ℝ}
    {p : Point ℝ}
    (ht : t ∈ coarse options.coarseCount)
    (hp : curve.pointAt t = some p) :
    ∃ q, curve.nearest? query options = some q ∧ OnCurve curve query q ∧
      q.distance ≤ (p - query).length := by
  have hplace : place? curve query t = some ⟨t, p, p.distanceSq query⟩ :=
    (place?_eq_some_iff curve query).mpr ⟨rfl, hp, rfl, rfl⟩
  obtain ⟨best, hbest, hle⟩ := exists_foldl_consider curve query ht hplace
  have hon : OnCurve curve query best := foldl_consider_induction curve query hbest
    fun t ht q hq => onCurve_of_place? (mem_unit_of_mem_coarse ht) hq
  have hradius : (0 : ℝ) ≤ 1 / (options.coarseCount : ℝ) :=
    div_nonneg zero_le_one (Nat.cast_nonneg _)
  refine ⟨_, ?_, hon.refine options.rounds hradius, ?_⟩
  · show Option.map _ _ = _
    rw [hbest]
    rfl
  · exact Real.sqrt_le_sqrt (not_lt.mp (refine_within curve query hle _ _))

end Exact

end Search

namespace Polyline

/-- Every point of a segment has a coarse sample within half a step along the polyline. -/
theorem exists_sample_near
    (l : Polyline ℝ)
    {n : ℕ}
    (hn : 2 ≤ n)
    {s : Segment ℝ}
    {u : ℝ}
    (hs : s ∈ l.segments)
    (hnonneg : 0 ≤ u)
    (hle : u ≤ 1) :
    ∃ t ∈ Search.coarse n, ∃ p, l.pointAt t = some p ∧
      (p - s.pointAt u).length ≤ l.length / (2 * ((n : ℝ) - 1)) := by
  obtain ⟨d, hd⟩ := exists_along_of_mem hs hnonneg hle
  have hd₀ : 0 ≤ d := hd.nonneg
  have hd₁ : d ≤ l.length := by
    rw [length_eq]
    exact hd.le_chainLength
  have hlength : 0 ≤ l.length := l.length_nonneg
  -- without any length the distance is zero, and so is the quotient
  have hfraction : d / l.length * l.length = d :=
    div_mul_cancel_of_imp fun hzero => le_antisymm (hzero ▸ hd₁) hd₀
  obtain ⟨t, ht, hnear⟩ := Search.exists_coarse_near (x := d / l.length) hn
    ⟨div_nonneg hd₀ hlength, div_le_one_of_le₀ hd₁ hlength⟩
  obtain ⟨ht₀, ht₁⟩ := Search.mem_unit_of_mem_coarse ht
  obtain ⟨p, hp, halong⟩ := l.pointAt_along ht₀ ht₁
  obtain ⟨start, -, hjoined⟩ := l.segments_joined
  refine ⟨t, ht, p, hp, ?_⟩
  calc (p - s.pointAt u).length
      ≤ |t * l.length - d| := halong.length_sub_le hd hjoined
    _ = |t - d / l.length| * l.length := by
        conv_lhs => rw [← hfraction]
        rw [← sub_mul, abs_mul, abs_of_nonneg hlength]
    _ ≤ 1 / (2 * ((n : ℝ) - 1)) * l.length := mul_le_mul_of_nonneg_right hnear hlength
    _ = l.length / (2 * ((n : ℝ) - 1)) := one_div_mul_eq_div _ _

/-- **Searching a polyline.**  The search always answers a point of the polyline, with its parameter
and its distance.  No point of any side is nearer by more than half a step of the coarse samples,
measured along the polyline. -/
theorem nearest?_within
    (l : Polyline ℝ)
    (query : Point ℝ)
    (options : Search.Options) :
    ∃ q : Placement ℝ,
      (Path.polyline l).toCurve.nearest? query options = some q ∧
      (0 ≤ q.t ∧ q.t ≤ 1) ∧
      l.pointAt q.t = some q.point ∧
      q.distance = (q.point - query).length ∧
      ∀ s, l.Side s → ∀ u : ℝ, 0 ≤ u → u ≤ 1 →
        q.distance ≤ (s.pointAt u - query).length +
          l.length / (2 * (((max options.sampleCount 8 : ℕ) : ℝ) - 1)) := by
  have hcount : 2 ≤ options.coarseCount := le_trans (by norm_num) (le_max_right _ 8)
  -- the answer is compared with the sample near a point of a segment
  have hanswer : ∀ s ∈ l.segments, ∀ u : ℝ, 0 ≤ u → u ≤ 1 →
      ∃ q, (Path.polyline l).toCurve.nearest? query options = some q ∧
        Search.OnCurve (Path.polyline l).toCurve query q ∧
        q.distance ≤ (s.pointAt u - query).length +
          l.length / (2 * ((options.coarseCount : ℝ) - 1)) := by
    intro s hs u hu₀ hu₁
    obtain ⟨t, ht, p, hp, hnear⟩ := l.exists_sample_near hcount hs hu₀ hu₁
    obtain ⟨q, hq, hon, hdistance⟩ :=
      Search.exists_nearest? query ht (show (Path.polyline l).toCurve.pointAt t = some p from hp)
    have htriangle := Point.length_sub_le p (s.pointAt u) query
    exact ⟨q, hq, hon, by linarith⟩
  obtain ⟨first, corner, rest, -, hsegments⟩ := l.exists_segments
  have hfirst : ⟨first, corner⟩ ∈ l.segments := by
    rw [hsegments]
    exact List.mem_cons_self
  obtain ⟨q, hq, hon, -⟩ := hanswer _ hfirst 0 (le_refl 0) zero_le_one
  refine ⟨q, hq, hon.parameter, hon.pointAt, hon.distance, fun s hs u hu₀ hu₁ => ?_⟩
  obtain ⟨q', hq', -, hdistance⟩ := hanswer s ((l.mem_segments_iff s).mpr hs) u hu₀ hu₁
  obtain rfl : q' = q := Option.some.inj (hq'.symm.trans hq)
  exact hdistance

end Polyline

end FieldGeometry
