import FieldGeometry.Curve
import FieldGeometry.Proofs.Points

/-!
# Arc length of polylines

In exact arithmetic a polyline is parameterised by arc length: the point at a fraction of the length
lies at that distance along the chain of segments (`pointAt_along`), whether segments have no
length, whether the polyline is closed, and whether it has any length at all.

**Sides.**  The segments of a polyline are its sides: one between each two consecutive corners, and
one back to the first corner when it is closed (`mem_segments_iff`).

**Chains.**  `Along` says that a point lies at a distance along a list of segments.  Where each
segment starts at the stop of the one before (`Joined`, which the segments of a polyline satisfy),
two such points are no farther apart than their distances along the chain (`Along.length_sub_le`).
So a distance has at most one point, and the parameterisation is Lipschitz.

**Walking.**  The walk over the segments finds a segment of positive length for every distance up to
the length of the chain, if that is positive (`exists_walk`).  The point that lies at a distance is
therefore the one that is found there (`pointAt_of_along`), which gives the ends, every point of
every side, and the bound on distances (`pointAt_arcLength`).
-/

namespace FieldGeometry

namespace Polyline

/-- The length of a chain of segments. -/
noncomputable def chainLength (segments : List (Segment ℝ)) : ℝ :=
  (segments.map Segment.length).sum

@[simp] theorem chainLength_nil : chainLength [] = 0 := by
  rfl

@[simp] theorem chainLength_cons (s : Segment ℝ) (segments : List (Segment ℝ)) :
    chainLength (s :: segments) = s.length + chainLength segments := by
  rfl

theorem chainLength_nonneg (segments : List (Segment ℝ)) : 0 ≤ chainLength segments := by
  induction segments with
  | nil =>
      exact le_refl 0
  | cons s segments ih =>
      exact add_nonneg s.length_nonneg ih

/-- The first segment starts at a point, and each other one at the stop of the one before. -/
def Joined : Point ℝ → List (Segment ℝ) → Prop
  | _, [] => True
  | p, s :: rest => s.start = p ∧ Joined s.stop rest

/-- A point lies at a distance along a chain of segments. -/
inductive Along : List (Segment ℝ) → ℝ → Point ℝ → Prop
  | here
      (s : Segment ℝ) (rest : List (Segment ℝ))
      {u : ℝ} (hnonneg : 0 ≤ u) (hle : u ≤ 1) :
      Along (s :: rest) (u * s.length) (s.pointAt u)
  | later
      (s : Segment ℝ) {rest : List (Segment ℝ)} {d : ℝ} {q : Point ℝ}
      (h : Along rest d q) :
      Along (s :: rest) (s.length + d) q

section Distances

variable {segments : List (Segment ℝ)} {d e : ℝ} {p q r : Point ℝ}

theorem Along.nonneg (h : Along segments d q) : 0 ≤ d := by
  induction h with
  | here s rest hnonneg hle =>
      exact mul_nonneg hnonneg s.length_nonneg
  | later s h ih =>
      exact add_nonneg s.length_nonneg ih

theorem Along.le_chainLength (h : Along segments d q) : d ≤ chainLength segments := by
  induction h with
  | here s rest hnonneg hle =>
      have hfirst := mul_le_of_le_one_left s.length_nonneg hle
      have hrest := chainLength_nonneg rest
      rw [chainLength_cons]
      linarith
  | later s h ih =>
      rw [chainLength_cons]
      linarith

/-- A point along a chain is no farther from its start than along the chain. -/
theorem Along.length_sub_start_le
    (h : Along segments d q)
    (hjoined : Joined p segments) :
    (q - p).length ≤ d := by
  induction h generalizing p with
  | @here s rest u hnonneg hle =>
      obtain ⟨rfl, -⟩ := hjoined
      have hlength := s.length_pointAt_sub u 0
      rw [s.pointAt_zero, zero_mul, sub_zero, abs_of_nonneg (mul_nonneg hnonneg s.length_nonneg)]
        at hlength
      exact le_of_eq hlength
  | @later s rest d q h ih =>
      obtain ⟨rfl, hrest⟩ := hjoined
      have htail : (q - s.stop).length ≤ d := ih hrest
      have hfirst : (s.stop - s.start).length = s.length := rfl
      have htriangle := Point.length_sub_le q s.stop s.start
      linarith

/-- A point of the first segment and a later one are no farther apart than along the chain. -/
theorem length_pointAt_sub_later_le
    {s : Segment ℝ}
    {rest : List (Segment ℝ)}
    {u : ℝ}
    (hle : u ≤ 1)
    (hjoined : Joined s.stop rest)
    (h : Along rest e r) :
    (s.pointAt u - r).length ≤ |u * s.length - (s.length + e)| := by
  have hfirst : (s.pointAt u - s.stop).length = |u * s.length - 1 * s.length| := by
    rw [← s.length_pointAt_sub, s.pointAt_one]
  have hlater : (s.stop - r).length ≤ e := by
    rw [Point.length_sub_comm]
    exact h.length_sub_start_le hjoined
  have hbefore : u * s.length ≤ s.length := mul_le_of_le_one_left s.length_nonneg hle
  have htriangle := Point.length_sub_le (s.pointAt u) s.stop r
  have hnonneg := h.nonneg
  rw [abs_of_nonpos (by linarith)] at hfirst ⊢
  linarith

/-- **Arc length bounds distance.**  Two points along a chain are no farther apart than their
distances along it. -/
theorem Along.length_sub_le
    (hq : Along segments d q)
    (hr : Along segments e r)
    (hjoined : Joined p segments) :
    (q - r).length ≤ |d - e| := by
  induction hq generalizing e r p with
  | @here s rest u hnonneg hle =>
      cases hr with
      | here _ _ _ _ =>
          exact le_of_eq (s.length_pointAt_sub _ _)
      | later _ hr =>
          exact length_pointAt_sub_later_le hle hjoined.2 hr
  | @later s rest d q hq ih =>
      cases hr with
      | here _ _ _ hle =>
          rw [Point.length_sub_comm, abs_sub_comm]
          exact length_pointAt_sub_later_le hle hjoined.2 hq
      | later _ hr =>
          rw [add_sub_add_left_eq_sub]
          exact ih hr hjoined.2

/-- Two points at one distance along a chain are the same. -/
theorem Along.eq_of_distance
    (hq : Along segments d q)
    (hr : Along segments d r)
    (hjoined : Joined p segments) :
    q = r := by
  have hle := hq.length_sub_le hr hjoined
  rw [sub_self, abs_zero] at hle
  exact Point.eq_of_length_sub hle

end Distances

section Walking

/-- A point of a segment lies along the chain behind the segments before it. -/
theorem along_append
    (before : List (Segment ℝ))
    (s : Segment ℝ)
    (after : List (Segment ℝ))
    {u : ℝ}
    (hnonneg : 0 ≤ u)
    (hle : u ≤ 1) :
    Along (before ++ s :: after) (chainLength before + u * s.length) (s.pointAt u) := by
  induction before with
  | nil =>
      rw [chainLength_nil, zero_add]
      exact .here s after hnonneg hle
  | cons b before ih =>
      rw [chainLength_cons, add_assoc]
      exact .later b ih

theorem exists_along_of_mem
    {segments : List (Segment ℝ)}
    {s : Segment ℝ}
    {u : ℝ}
    (hs : s ∈ segments)
    (hnonneg : 0 ≤ u)
    (hle : u ≤ 1) :
    ∃ d, Along segments d (s.pointAt u) := by
  obtain ⟨before, after, rfl⟩ := List.append_of_mem hs
  exact ⟨_, along_append before s after hnonneg hle⟩

theorem chainLength_concat (before : List (Segment ℝ)) (s : Segment ℝ) :
    chainLength (before ++ [s]) = chainLength before + s.length := by
  simp [chainLength]

/-- The last of several points lies at the end of the segments between them. -/
theorem along_getLast (p q : Point ℝ) (ps : List (Point ℝ)) :
    Along (List.zipWith Segment.mk (p :: q :: ps) (q :: ps))
      (chainLength (List.zipWith Segment.mk (p :: q :: ps) (q :: ps)))
      ((q :: ps).getLast (List.cons_ne_nil q ps)) := by
  induction ps generalizing p q with
  | nil =>
      have hstop := Along.here ⟨p, q⟩ [] zero_le_one (le_refl (1 : ℝ))
      rw [one_mul, Segment.pointAt_one] at hstop
      simpa using hstop
  | cons r ps ih =>
      exact .later ⟨p, q⟩ (ih q r)

/-- The walk stops in a segment of positive length, at the fraction that makes up the distance. -/
theorem exists_walk
    {segments : List (Segment ℝ)}
    {d : ℝ}
    (hpos : 0 < chainLength segments)
    (hnonneg : 0 ≤ d)
    (hle : d ≤ chainLength segments)
    (reached : Option (Point ℝ)) :
    ∃ before s after, ∃ u : ℝ,
      segments = before ++ s :: after ∧
      0 < s.length ∧
      0 ≤ u ∧ u ≤ 1 ∧
      chainLength before + u * s.length = d ∧
      walk segments d reached = some (s.pointAt u) := by
  induction segments generalizing d reached with
  | nil =>
      exact absurd hpos (lt_irrefl 0)
  | cons s rest ih =>
      by_cases hhere : d ≤ s.length ∧ 0 < s.length
      · obtain ⟨hd, hs⟩ := hhere
        refine ⟨[], s, rest, d / s.length, rfl, hs, div_nonneg hnonneg (le_of_lt hs),
          div_le_one_of_le₀ hd (le_of_lt hs), ?_, ?_⟩
        · rw [chainLength_nil, zero_add, div_mul_cancel₀ d (ne_of_gt hs)]
        · rw [walk, if_pos ⟨hd, hs⟩]
      · -- the segment has no length, or the distance lies beyond it: in both cases it is used up
        rw [chainLength_cons] at hpos hle
        have hbeyond : s.length ≤ d ∧ 0 < chainLength rest := by
          rcases eq_or_lt_of_le s.length_nonneg with hzero | hs
          · constructor
            · linarith
            · linarith
          · have hd : s.length < d := not_le.mp fun hd => hhere ⟨hd, hs⟩
            constructor
            · exact le_of_lt hd
            · linarith
        obtain ⟨before, t, after, u, rfl, ht, hu, hu', hsum, hwalk⟩ :=
          ih hbeyond.2 (sub_nonneg.mpr hbeyond.1) (by linarith) (some s.stop)
        refine ⟨s :: before, t, after, u, rfl, ht, hu, hu', ?_, ?_⟩
        · rw [chainLength_cons]
          linarith
        · rw [walk, if_neg hhere]
          exact hwalk

end Walking

section Sides

variable {α : Type}

theorem mem_zipWith_tail_iff
    (ps : List (Point α))
    (p q : Point α) :
    ⟨p, q⟩ ∈ List.zipWith Segment.mk ps ps.tail ↔
      ∃ before after, ps = before ++ p :: q :: after := by
  induction ps with
  | nil =>
      simp
  | cons a ps ih =>
      cases ps with
      | nil =>
          simp [List.cons_eq_append_iff]
      | cons b ps =>
          have hcons : List.zipWith Segment.mk (a :: b :: ps) (a :: b :: ps).tail =
              ⟨a, b⟩ :: List.zipWith Segment.mk (b :: ps) (b :: ps).tail := rfl
          rw [hcons, List.mem_cons, ih]
          constructor
          · rintro (hab | ⟨before, after, hsplit⟩)
            · cases hab
              exact ⟨[], ps, rfl⟩
            · exact ⟨a :: before, after, by rw [hsplit]; rfl⟩
          · rintro ⟨before, after, hsplit⟩
            cases before with
            | nil =>
                cases hsplit
                exact Or.inl rfl
            | cons c before =>
                obtain ⟨rfl, hrest⟩ := List.cons.inj hsplit
                exact Or.inr ⟨before, after, hrest⟩

variable [Scalar α]

/-- A side of a polyline leads from a corner to the next one.  When the polyline is closed, another
one leads from its last corner to its first. -/
inductive Side (l : Polyline α) : Segment α → Prop
  | between
      (before : List (Point α)) (p q : Point α) (after : List (Point α))
      (h : l.points = before ++ p :: q :: after) :
      Side l ⟨p, q⟩
  | closing
      (p q : Point α) (hclosed : l.closed = true)
      (hlast : l.points.getLast? = some p) (hfirst : l.points.head? = some q) :
      Side l ⟨p, q⟩

theorem mem_segments_iff
    (l : Polyline α)
    (s : Segment α) :
    s ∈ l.segments ↔ l.Side s := by
  obtain ⟨p, q⟩ := s
  rw [segments, List.mem_append, mem_zipWith_tail_iff]
  constructor
  · rintro (⟨before, after, h⟩ | hclosing)
    · exact .between before p q after h
    · unfold closing at hclosing
      split at hclosing
      · rename_i hclosed hlast hfirst
        cases List.mem_singleton.mp hclosing
        exact .closing p q hclosed hlast hfirst
      · cases hclosing
  · intro h
    cases h with
    | between before _ _ after h =>
        exact Or.inl ⟨before, after, h⟩
    | closing _ _ hclosed hlast hfirst =>
        apply Or.inr
        rw [closing, hclosed, hlast, hfirst]
        exact List.mem_singleton_self _

end Sides

section Chain

/-- The segments between consecutive points are joined, and so is what goes on from the last. -/
theorem joined_zipWith
    (p : Point ℝ)
    (ps : List (Point ℝ))
    {rest : List (Segment ℝ)}
    (hrest : Joined ((p :: ps).getLast (List.cons_ne_nil p ps)) rest) :
    Joined p (List.zipWith Segment.mk (p :: ps) ps ++ rest) := by
  induction ps generalizing p with
  | nil =>
      exact hrest
  | cons q ps ih =>
      exact ⟨rfl, ih q hrest⟩

variable (l : Polyline ℝ)

theorem exists_segments :
    ∃ p q ps, l.points = p :: q :: ps ∧
      l.segments = ⟨p, q⟩ :: (List.zipWith Segment.mk (q :: ps) ps ++ l.closing) := by
  obtain ⟨p, q, ps, hpoints⟩ : ∃ p q ps, l.points = p :: q :: ps := by
    have htwo := l.two_le
    match h : l.points with
    | [] | [_] =>
        rw [h] at htwo
        simp at htwo
    | p :: q :: ps =>
        exact ⟨p, q, ps, rfl⟩
  refine ⟨p, q, ps, hpoints, ?_⟩
  rw [segments, hpoints]
  rfl

/-- The segments of a polyline are joined, the closing one included. -/
theorem segments_joined : ∃ p, l.points.head? = some p ∧ Joined p l.segments := by
  obtain ⟨p, q, ps, hpoints, hsegments⟩ := l.exists_segments
  refine ⟨p, by rw [hpoints]; rfl, ?_⟩
  have hclosing : Joined ((p :: q :: ps).getLast (List.cons_ne_nil _ _)) l.closing := by
    unfold closing
    split
    · rename_i last first _ hlast _
      rw [hpoints, List.getLast?_eq_some_getLast (List.cons_ne_nil _ _)] at hlast
      cases hlast
      exact ⟨rfl, trivial⟩
    · exact trivial
  rw [hsegments]
  exact joined_zipWith p (q :: ps) hclosing

theorem length_eq : l.length = chainLength l.segments := by
  rw [length, Scalar.sum_exact]
  rfl

theorem length_nonneg : 0 ≤ l.length := by
  rw [length_eq]
  exact chainLength_nonneg _

/-- At any fraction, clamped to the interval from `0` to `1`, the point is found in a segment of
positive length, at that fraction of the whole length. -/
theorem exists_pointAt
    (hpos : 0 < l.length)
    (t : ℝ) :
    ∃ before s after, ∃ u : ℝ,
      l.segments = before ++ s :: after ∧
      0 < s.length ∧
      (0 ≤ u ∧ u ≤ 1) ∧
      chainLength before + u * s.length = min (max t 0) 1 * l.length ∧
      l.pointAt t = some (s.pointAt u) := by
  have hwalk : l.pointAt t = walk l.segments (min (max t 0) 1 * l.length) none := by
    simp [pointAt, not_le.mpr hpos]
  have hclamp : 0 ≤ min (max t 0) 1 := le_min (le_max_right t 0) zero_le_one
  have hbound : min (max t 0) 1 * l.length ≤ chainLength l.segments := by
    rw [← length_eq]
    exact mul_le_of_le_one_left (le_of_lt hpos) (min_le_right _ 1)
  obtain ⟨before, s, after, u, hsegments, hs, hu, hu', hsum, hfound⟩ :=
    exists_walk (l.length_eq ▸ hpos) (mul_nonneg hclamp (le_of_lt hpos)) hbound none
  exact ⟨before, s, after, u, hsegments, hs, ⟨hu, hu'⟩, hsum, by rw [hwalk, hfound]⟩

/-- The first corner lies at the start of the segments. -/
theorem exists_along_first : ∃ p, l.points.head? = some p ∧ Along l.segments 0 p := by
  obtain ⟨p, q, ps, hpoints, hsegments⟩ := l.exists_segments
  have hstart := Along.here ⟨p, q⟩ (List.zipWith Segment.mk (q :: ps) ps ++ l.closing)
    (le_refl (0 : ℝ)) zero_le_one
  rw [zero_mul, Segment.pointAt_zero, ← hsegments] at hstart
  exact ⟨p, by rw [hpoints]; rfl, hstart⟩

/-- At each fraction there is a point, and it lies at that fraction of the length along the
segments. -/
theorem pointAt_along
    {t : ℝ}
    (hnonneg : 0 ≤ t)
    (hle : t ≤ 1) :
    ∃ q, l.pointAt t = some q ∧ Along l.segments (t * l.length) q := by
  rcases eq_or_lt_of_le l.length_nonneg with hzero | hpos
  · obtain ⟨p, hfirst, hstart⟩ := l.exists_along_first
    refine ⟨p, ?_, ?_⟩
    · simp [pointAt, ← hzero, hfirst]
    · rwa [← hzero, mul_zero]
  · obtain ⟨before, s, after, u, hsegments, -, ⟨hu, hu'⟩, hsum, hfound⟩ := l.exists_pointAt hpos t
    rw [max_eq_left hnonneg, min_eq_left hle] at hsum
    refine ⟨s.pointAt u, hfound, ?_⟩
    rw [← hsum, hsegments]
    exact along_append before s after hu hu'

/-- A point that lies along the segments is the point at its fraction of the length. -/
theorem pointAt_of_along
    (hpos : 0 < l.length)
    {d : ℝ}
    {q : Point ℝ}
    (h : Along l.segments d q) :
    (0 ≤ d / l.length ∧ d / l.length ≤ 1) ∧ l.pointAt (d / l.length) = some q := by
  have hnonneg : 0 ≤ d / l.length := div_nonneg h.nonneg (le_of_lt hpos)
  have hle : d / l.length ≤ 1 := by
    refine div_le_one_of_le₀ ?_ (le_of_lt hpos)
    rw [length_eq]
    exact h.le_chainLength
  obtain ⟨q', hq', halong⟩ := l.pointAt_along hnonneg hle
  rw [div_mul_cancel₀ d (ne_of_gt hpos)] at halong
  obtain ⟨start, -, hjoined⟩ := l.segments_joined
  exact ⟨⟨hnonneg, hle⟩, by rw [hq', halong.eq_of_distance h hjoined]⟩

/-- The last corner lies at the end of the segments, or the first one when the polyline is closed.
-/
theorem exists_along_last :
    ∃ p, (if l.closed then l.points.head? else l.points.getLast?) = some p ∧
      Along l.segments l.length p := by
  obtain ⟨p, q, ps, hpoints, -⟩ := l.exists_segments
  have hbetween := along_getLast p q ps
  have hlast : l.points.getLast? = some ((q :: ps).getLast (List.cons_ne_nil q ps)) := by
    rw [hpoints, List.getLast?_cons_cons, List.getLast?_eq_some_getLast (List.cons_ne_nil q ps)]
  have hfirst : l.points.head? = some p := by
    rw [hpoints]
    rfl
  rw [length_eq, segments, closing, hlast, hfirst, hpoints]
  cases l.closed with
  | false =>
      refine ⟨_, rfl, ?_⟩
      simpa using hbetween
  | true =>
      refine ⟨p, rfl, ?_⟩
      have hback := along_append (List.zipWith Segment.mk (p :: q :: ps) (q :: ps))
        ⟨(q :: ps).getLast (List.cons_ne_nil q ps), p⟩ [] zero_le_one (le_refl (1 : ℝ))
      rwa [one_mul, Segment.pointAt_one, ← chainLength_concat] at hback

/-- **The parameterisation by arc length.**  On a polyline of positive length there is a point at
every number.  It divides a segment of positive length so that the lengths up to it make up the
clamped fraction of the whole length.  The points at `0` and `1` are the first corner and the last,
or the first once more when the polyline is closed.  Every point of every side is reached, and two
points are no farther apart than their fractions, measured along the polyline. -/
theorem pointAt_arcLength
    (l : Polyline ℝ)
    (hpos : 0 < l.length) :
    (∀ t : ℝ, ∃ before s after, ∃ u : ℝ,
      l.segments = before ++ s :: after ∧
      0 < s.length ∧
      (0 ≤ u ∧ u ≤ 1) ∧
      chainLength before + u * s.length = min (max t 0) 1 * l.length ∧
      l.pointAt t = some (s.pointAt u)) ∧
    l.pointAt 0 = l.points.head? ∧
    l.pointAt 1 = (if l.closed then l.points.head? else l.points.getLast?) ∧
    (∀ s, l.Side s → ∀ u : ℝ, 0 ≤ u → u ≤ 1 →
      ∃ t : ℝ, (0 ≤ t ∧ t ≤ 1) ∧ l.pointAt t = some (s.pointAt u)) ∧
    (∀ t t' : ℝ, (0 ≤ t ∧ t ≤ 1) → (0 ≤ t' ∧ t' ≤ 1) →
      ∀ p q, l.pointAt t = some p → l.pointAt t' = some q →
        (p - q).length ≤ l.length * |t - t'|) := by
  refine ⟨l.exists_pointAt hpos, ?_, ?_, ?_, ?_⟩
  · obtain ⟨p, hfirst, halong⟩ := l.exists_along_first
    have hpoint := (l.pointAt_of_along hpos halong).2
    rwa [zero_div, ← hfirst] at hpoint
  · obtain ⟨p, hlast, halong⟩ := l.exists_along_last
    have hpoint := (l.pointAt_of_along hpos halong).2
    rwa [div_self (ne_of_gt hpos), ← hlast] at hpoint
  · intro s hs u hu₀ hu₁
    obtain ⟨d, hd⟩ := exists_along_of_mem ((l.mem_segments_iff s).mpr hs) hu₀ hu₁
    exact ⟨d / l.length, l.pointAt_of_along hpos hd⟩
  · rintro t t' ⟨ht₀, ht₁⟩ ⟨ht₀', ht₁'⟩ p q hp hq
    obtain ⟨p', hp', halong⟩ := l.pointAt_along ht₀ ht₁
    obtain ⟨q', hq', halong'⟩ := l.pointAt_along ht₀' ht₁'
    obtain rfl : p' = p := Option.some.inj (hp'.symm.trans hp)
    obtain rfl : q' = q := Option.some.inj (hq'.symm.trans hq)
    obtain ⟨start, -, hjoined⟩ := l.segments_joined
    calc (p' - q').length
        ≤ |t * l.length - t' * l.length| := halong.length_sub_le halong' hjoined
      _ = l.length * |t - t'| := by
          rw [← sub_mul, abs_mul, abs_of_pos hpos, mul_comm]

/-- From a corner that is given twice to another one and back. -/
def thereAndBack : Polyline ℝ where
  points := [⟨0, 0, 0⟩, ⟨0, 0, 0⟩, ⟨1, 0, 0⟩]
  closed := true
  finite := rfl
  two_le := by decide

theorem length_thereAndBack : thereAndBack.length = 2 := by
  have hsegments : thereAndBack.segments =
      [⟨⟨0, 0, 0⟩, ⟨0, 0, 0⟩⟩, ⟨⟨0, 0, 0⟩, ⟨1, 0, 0⟩⟩, ⟨⟨1, 0, 0⟩, ⟨0, 0, 0⟩⟩] := rfl
  rw [length_eq, hsegments]
  simp [Segment.length, Segment.direction, Point.sub_eq_toVec_sub, Point.toVec, Vec.length_eq,
    Vec.dot_eq]
  norm_num

/-- The way there and back begins and ends at its first corner. -/
theorem pointAt_arcLength_thereAndBack :
    0 < thereAndBack.length ∧
    thereAndBack.pointAt 0 = some ⟨0, 0, 0⟩ ∧
    thereAndBack.pointAt 1 = some ⟨0, 0, 0⟩ := by
  have hpos : 0 < thereAndBack.length := by
    rw [length_thereAndBack]
    exact zero_lt_two
  obtain ⟨-, hfirst, hlast, -⟩ := pointAt_arcLength thereAndBack hpos
  exact ⟨hpos, hfirst, hlast⟩

end Chain

end Polyline

end FieldGeometry
