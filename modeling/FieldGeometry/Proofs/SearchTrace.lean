import FieldGeometry.Proofs.CurveSearch
import FieldGeometry.Proofs.DoubleRounding

/-!
# What a search along a curve looks at

A search answers the first of the nearest places among those it has looked at (`FirstNearest`), and
the parameters it looks at are determined by that: the coarse ones, then in each round those of the
window about the first nearest place so far (`Visits`).  The two describe the search completely
(`nearest?_eq_some_iff`).  All this needs of the arithmetic is that comparing puts the finite
distances in a total order; the curve may have no point, or none at a finite distance, wherever it
likes.

In rounded arithmetic the parameters of a window stay between `0` and `1`: its ends are clamped, and
what the steps between them gain by rounding is less than what rounding to one gives up again
(`withinUnit_window`).
-/

namespace FieldGeometry

namespace Search

section Places

variable {α : Type} [Scalar α] (curve : Curve α) (query : Point α)

/-- The first of the nearest places at a list of parameters. -/
structure FirstNearest (ts : List α) (q : Placement α) : Prop where
  place : place? curve query q.t = some q
  least : ∀ t ∈ ts, ∀ p, place? curve query t = some p → q.distanceSq ≤ p.distanceSq
  first : ∃ before after, ts = before ++ q.t :: after ∧
    ∀ t ∈ before, ∀ p, place? curve query t = some p → q.distanceSq < p.distanceSq

/-- The parameters that a search with some number of coarse ones has looked at after a number of
rounds, in turn, and the radius of the window that would come next. -/
inductive Visits (n : ℕ) : ℕ → List α → α → Prop
  | coarse :
      Visits n 0 (Search.coarse n) (1 / (n : α))
  | window
      {rounds : ℕ} {ts : List α} {radius : α} {q : Placement α}
      (h : Visits n rounds ts radius) (hq : FirstNearest curve query ts q) :
      Visits n (rounds + 1) (ts ++ Search.window q.t radius) (radius * Scalar.half)

variable {curve query} {ts : List α} {q : Placement α}

theorem finite_of_place?
    {t : α}
    (h : place? curve query t = some q) :
    Scalar.isFinite q.distanceSq = true :=
  ((place?_eq_some_iff curve query).mp h).2.2.2

theorem t_of_place?
    {t : α}
    (h : place? curve query t = some q) :
    q.t = t :=
  ((place?_eq_some_iff curve query).mp h).1

/-- A parameter has no place where the curve has no point at a finite distance. -/
theorem place?_eq_none_iff {t : α} :
    place? curve query t = none ↔
      ∀ p, curve.pointAt t = some p → Scalar.isFinite (p.distanceSq query) = false := by
  unfold place?
  cases curve.pointAt t with
  | none =>
      simp
  | some p =>
      simp

theorem FirstNearest.mem (h : FirstNearest curve query ts q) : q.t ∈ ts := by
  obtain ⟨before, after, hts, -⟩ := h.first
  rw [hts]
  exact List.mem_append_right before List.mem_cons_self

/-- A parameter without a place makes no difference. -/
theorem FirstNearest.cons_of_none
    {t : α}
    (h : FirstNearest curve query ts q)
    (hplace : place? curve query t = none) :
    FirstNearest curve query (t :: ts) q := by
  obtain ⟨before, after, hts, hbefore⟩ := h.first
  have hskip : ∀ u ∈ [t], ∀ p, place? curve query u ≠ some p := by
    intro u hu p hp
    rw [List.mem_singleton.mp hu, hplace] at hp
    cases hp
  refine ⟨h.place, fun u hu p hp => ?_, t :: before, after, by rw [hts]; rfl, fun u hu p hp => ?_⟩
  · rcases List.mem_append.mp (show u ∈ [t] ++ ts from hu) with hu | hu
    · exact absurd hp (hskip u hu p)
    · exact h.least u hu p hp
  · rcases List.mem_append.mp (show u ∈ [t] ++ before from hu) with hu | hu
    · exact absurd hp (hskip u hu p)
    · exact hbefore u hu p hp

/-- The best place stays where one more parameter has no nearer place. -/
theorem FirstNearest.stays
    {t : α}
    (h : FirstNearest curve query ts q)
    (hle : ∀ p, place? curve query t = some p → q.distanceSq ≤ p.distanceSq) :
    FirstNearest curve query (ts ++ [t]) q := by
  obtain ⟨before, after, hts, hbefore⟩ := h.first
  refine ⟨h.place, fun u hu p hp => ?_, before, after ++ [t], by rw [hts]; simp, hbefore⟩
  rcases List.mem_append.mp hu with hu | hu
  · exact h.least u hu p hp
  · rw [List.mem_singleton.mp hu] at hp
    exact hle p hp

section Order

variable [Scalar.OrdersFinite α]

theorem firstNearest_singleton
    {t : α}
    (h : place? curve query t = some q) :
    FirstNearest curve query [t] q := by
  obtain rfl := t_of_place? h
  refine ⟨h, fun u hu p hp => ?_, [], [], rfl, by simp⟩
  rw [List.mem_singleton.mp hu, h] at hp
  cases hp
  exact Scalar.OrdersFinite.refl (finite_of_place? h)

/-- A strictly nearer place at one more parameter takes over. -/
theorem FirstNearest.replaced
    {t : α}
    {found : Placement α}
    (h : FirstNearest curve query ts q)
    (hplace : place? curve query t = some found)
    (hlt : found.distanceSq < q.distanceSq) :
    FirstNearest curve query (ts ++ [t]) found := by
  have hfound := finite_of_place? hplace
  have hnearer : ∀ u ∈ ts, ∀ p, place? curve query u = some p →
      found.distanceSq < p.distanceSq := fun u hu p hp =>
    Scalar.OrdersFinite.lt_of_lt_of_le hfound (finite_of_place? h.place) (finite_of_place? hp) hlt
      (h.least u hu p hp)
  obtain rfl := t_of_place? hplace
  refine ⟨hplace, fun u hu p hp => ?_, ts, [], rfl, hnearer⟩
  rcases List.mem_append.mp hu with hu | hu
  · exact Scalar.OrdersFinite.le_of_lt hfound (finite_of_place? hp) (hnearer u hu p hp)
  · exact (firstNearest_singleton hplace).least u hu p hp

/-- Looking at one more parameter leaves the first of the nearest places. -/
theorem FirstNearest.closer
    (h : FirstNearest curve query ts q)
    (t : α) :
    FirstNearest curve query (ts ++ [t]) (closer curve query q t) := by
  unfold Search.closer
  cases hplace : place? curve query t with
  | none =>
      refine h.stays fun p hp => ?_
      rw [hplace] at hp
      cases hp
  | some found =>
      dsimp only
      split_ifs with hlt
      · exact h.replaced hplace hlt
      · refine h.stays fun p hp => ?_
        rw [hplace] at hp
        cases hp
        exact Scalar.OrdersFinite.le_of_not_lt (finite_of_place? hplace)
          (finite_of_place? h.place) hlt

theorem FirstNearest.foldl_closer
    (h : FirstNearest curve query ts q)
    (us : List α) :
    FirstNearest curve query (ts ++ us) (us.foldl (Search.closer curve query) q) := by
  induction us generalizing ts q with
  | nil =>
      rwa [List.append_nil]
  | cons u us ih =>
      rw [List.append_cons, List.foldl_cons]
      exact ih (h.closer u)

theorem firstNearest_foldl_consider
    (h : ts.foldl (consider curve query) none = some q) :
    FirstNearest curve query ts q := by
  induction ts with
  | nil =>
      cases h
  | cons t ts ih =>
      have hfirst : consider curve query none t = place? curve query t := rfl
      rw [List.foldl_cons, hfirst] at h
      cases hplace : place? curve query t with
      | none =>
          rw [hplace] at h
          exact (ih h).cons_of_none hplace
      | some found =>
          rw [hplace, foldl_consider_some] at h
          cases h
          exact (firstNearest_singleton hplace).foldl_closer ts

/-- A list of parameters has one first nearest place at most. -/
theorem FirstNearest.unique
    {q' : Placement α}
    (h : FirstNearest curve query ts q)
    (h' : FirstNearest curve query ts q') :
    q = q' := by
  -- neither place comes before the other
  have hnot : ∀ {q q' : Placement α}, FirstNearest curve query ts q →
      FirstNearest curve query ts q' → ∀ before after, ts = before ++ q'.t :: after →
      (∀ t ∈ before, ∀ p, place? curve query t = some p → q'.distanceSq < p.distanceSq) →
      q.t ∉ before := by
    intro q q' h h' before after _ hbefore hmem
    exact (Scalar.OrdersFinite.lt_iff_not_le _ _ (finite_of_place? h'.place)
      (finite_of_place? h.place)).mp (hbefore q.t hmem q h.place) (h.least q'.t h'.mem q' h'.place)
  obtain ⟨before, after, hts, hbefore⟩ := h.first
  obtain ⟨before', after', hts', hbefore'⟩ := h'.first
  have hout := hnot h h' before' after' hts' hbefore'
  have hout' := hnot h' h before after hts hbefore
  have ht : q.t = q'.t := by
    rcases List.append_eq_append_iff.mp (hts.symm.trans hts') with
      ⟨rest, hbefore'_eq, hafter⟩ | ⟨rest, hbefore_eq, hafter⟩
    · cases rest with
      | nil =>
          exact (List.cons.inj hafter).1
      | cons u rest =>
          obtain ⟨rfl, -⟩ := List.cons.inj hafter
          exact absurd (hbefore'_eq ▸ List.mem_append_right _ List.mem_cons_self) hout
    · cases rest with
      | nil =>
          exact (List.cons.inj hafter).1.symm
      | cons u rest =>
          obtain ⟨rfl, -⟩ := List.cons.inj hafter
          exact absurd (hbefore_eq ▸ List.mem_append_right _ List.mem_cons_self) hout'
  have hplace := h.place
  rw [ht, h'.place] at hplace
  exact (Option.some.inj hplace).symm

end Order

end Places

section Runs

variable {α : Type} [Scalar α] {curve : Curve α} {query : Point α} {n rounds : ℕ}
  {ts ts' : List α} {radius radius' : α} {q : Placement α}

theorem foldl_consider_eq_none_iff :
    ts.foldl (consider curve query) none = none ↔ ∀ t ∈ ts, place? curve query t = none := by
  induction ts with
  | nil =>
      simp
  | cons t ts ih =>
      have hfirst : consider curve query none t = place? curve query t := rfl
      rw [List.foldl_cons, hfirst, List.forall_mem_cons]
      cases place? curve query t with
      | none =>
          rw [ih]
          simp
      | some found =>
          rw [foldl_consider_some]
          simp

/-- A search that has found a place has found one among the coarse parameters. -/
theorem Visits.exists_coarse
    (h : Visits curve query n rounds ts radius)
    (hq : FirstNearest curve query ts q) :
    ∃ best, FirstNearest curve query (Search.coarse n) best := by
  induction h generalizing q with
  | coarse =>
      exact ⟨q, hq⟩
  | window h hbest ih =>
      exact ih hbest

variable [Scalar.OrdersFinite α]

/-- Refining the first nearest place so far visits the windows that come next, and gives the first
nearest place of all that is visited then. -/
theorem visits_refine
    (h : Visits curve query n rounds ts radius)
    (hq : FirstNearest curve query ts q)
    (more : ℕ) :
    ∃ ts' radius', ts <+: ts' ∧ Visits curve query n (rounds + more) ts' radius' ∧
      FirstNearest curve query ts' (refine curve query more radius q) := by
  induction more generalizing rounds ts radius q with
  | zero =>
      exact ⟨ts, radius, List.prefix_rfl, h, hq⟩
  | succ more ih =>
      obtain ⟨ts', radius', hinitial, hvisits, hfirst⟩ :=
        ih (.window h hq) (hq.foldl_closer (window q.t radius))
      rw [Nat.add_right_comm] at hvisits
      exact ⟨ts', radius', (List.prefix_append ts _).trans hinitial, hvisits, hfirst⟩

/-- What is visited up to a round is determined. -/
theorem Visits.unique
    (h : Visits curve query n rounds ts radius)
    (h' : Visits curve query n rounds ts' radius') :
    ts = ts' ∧ radius = radius' := by
  induction h generalizing ts' radius' with
  | coarse =>
      cases h' with
      | coarse =>
          exact ⟨rfl, rfl⟩
  | window h hq ih =>
      cases h' with
      | window h' hq' =>
          obtain ⟨rfl, rfl⟩ := ih h'
          obtain rfl := hq.unique hq'
          exact ⟨rfl, rfl⟩

/-- The search answers the first nearest place of all it visits. -/
theorem nearest?_eq_some_iff {options : Options} :
    curve.nearest? query options = some q ↔
      ∃ ts radius, Visits curve query options.coarseCount options.rounds ts radius ∧
        FirstNearest curve query ts q := by
  have hanswer : ∀ q, curve.nearest? query options = some q →
      ∃ ts radius, Visits curve query options.coarseCount options.rounds ts radius ∧
        FirstNearest curve query ts q := by
    intro q h
    obtain ⟨best, hbest, rfl⟩ := Option.map_eq_some_iff.mp h
    obtain ⟨ts, radius, -, hvisits, hfirst⟩ := visits_refine (n := options.coarseCount) .coarse
      (firstNearest_foldl_consider hbest) options.rounds
    rw [Nat.zero_add] at hvisits
    exact ⟨ts, radius, hvisits, hfirst⟩
  refine ⟨hanswer q, ?_⟩
  rintro ⟨ts, radius, hvisits, hfirst⟩
  obtain ⟨best, hbest⟩ := hvisits.exists_coarse hfirst
  cases hsearch : curve.nearest? query options with
  | none =>
      have hnone := foldl_consider_eq_none_iff.mp (Option.map_eq_none_iff.mp hsearch) _ hbest.mem
      rw [hbest.place] at hnone
      cases hnone
  | some q' =>
      obtain ⟨ts', radius', hvisits', hfirst'⟩ := hanswer q' hsearch
      obtain ⟨rfl, -⟩ := hvisits.unique hvisits'
      rw [hfirst.unique hfirst']

end Runs

section Range

open Scalar Rounded

variable {α : Type} [Scalar α] [Rounded α]

/-- A finite parameter between `0` and `1`. -/
structure WithinUnit (t : α) : Prop where
  finite : isFinite t = true
  nonneg : 0 ≤ value t
  le_one : value t ≤ 1

/-- A radius that a search gives to its windows. -/
structure IsRadius (r : α) : Prop where
  finite : isFinite r = true
  nonneg : 0 ≤ value r
  le : value r ≤ 13 / 100

theorem abs_le_range {x : ℝ} (hnonneg : 0 ≤ x) (hle : x ≤ 4) : |x| ≤ (2 ^ 64 : ℕ) := by
  rw [abs_of_nonneg hnonneg]
  exact le_trans hle (by norm_num)

theorem le_value_natCast {m n : ℕ} (hn : n < 2 ^ 64) (h : m ≤ n) :
    value (m : α) ≤ value (n : α) := by
  rcases Nat.eq_or_lt_of_le h with rfl | hlt
  · exact le_refl _
  · have hcast : (m : ℝ) < n := by exact_mod_cast hlt
    exact (natCast m (by omega)).mono (natCast n hn) hcast

theorem one_le_value_natCast {n : ℕ} (hn : n < 2 ^ 64) (h : 1 ≤ n) : 1 ≤ value (n : α) := by
  have hone : value (1 : α) = 1 := value_one
  have hcast : (1 : ℝ) ≤ n := by exact_mod_cast h
  rw [← hone] at hcast ⊢
  exact (natCast n hn).le_value isFinite_one hcast

/-- A quotient of counts of which the first is not the greater one. -/
theorem withinUnit_quotient
    {i n : ℕ}
    (hn : n < 2 ^ 64)
    (hpos : 1 ≤ n)
    (hi : i ≤ n) :
    WithinUnit ((i : α) / (n : α)) := by
  have hle : value (i : α) ≤ value (n : α) := le_value_natCast hn hi
  have hone : 1 ≤ value (n : α) := one_le_value_natCast hn hpos
  have hcount := natCast (α := α) i (by omega)
  have hnonneg : 0 ≤ value (i : α) := hcount.nonneg (Nat.cast_nonneg i)
  have hquotient : 0 ≤ value (i : α) / value (n : α) := div_nonneg hnonneg (by linarith)
  have hquotient' : value (i : α) / value (n : α) ≤ 1 := div_le_one_of_le₀ hle (by linarith)
  have hrounds := div (i : α) (n : α) hcount.finite (natCast n hn).finite (by linarith)
    (abs_le_range hquotient (by linarith))
  have hvalue : value (1 : α) = 1 := value_one
  refine ⟨hrounds.finite, hrounds.nonneg hquotient, ?_⟩
  rw [← hvalue] at hquotient' ⊢
  exact hrounds.value_le isFinite_one hquotient'

theorem withinUnit_of_mem_coarse
    {n : ℕ}
    {t : α}
    (hn : n ≤ 2 ^ 64)
    (htwo : 2 ≤ n)
    (h : t ∈ coarse n) :
    WithinUnit t := by
  obtain ⟨i, hi, rfl⟩ := List.mem_map.mp h
  have hlt : i < n := List.mem_range.mp hi
  exact withinUnit_quotient (by omega) (by omega) (by omega)

section Window

variable {centre radius : α} (hcentre : WithinUnit centre) (hradius : IsRadius radius)

include hcentre hradius

/-- The lower end of a window. -/
theorem lowerEnd_bounds :
    isFinite (maxNum (centre - radius) 0) = true ∧
      0 ≤ value (maxNum (centre - radius) 0) ∧
      value (maxNum (centre - radius) 0) ≤ value centre ∧
      value centre - value radius - 2 * unit α ≤ value (maxNum (centre - radius) 0) := by
  obtain ⟨hc, hc₀, hc₁⟩ := hcentre
  obtain ⟨hr, hr₀, hr₁⟩ := hradius
  have hsize : |value centre - value radius| ≤ 2 := by
    rw [abs_le]
    constructor
    · linarith
    · linarith
  have hrounds := sub centre radius hc hr (le_trans hsize (by norm_num))
  have hle : value (centre - radius) ≤ value centre := hrounds.value_le hc (by linarith)
  have herror := abs_le.mp (hrounds.error_le hsize (by norm_num))
  obtain ⟨hfinite, hvalue⟩ := finite_maxNum hrounds.finite (isFinite_zero (α := α))
  rw [value_zero] at hvalue
  rw [hvalue]
  refine ⟨hfinite, le_max_right _ _, max_le hle hc₀, le_trans ?_ (le_max_left _ _)⟩
  linarith

/-- The upper end of a window. -/
theorem upperEnd_bounds :
    isFinite (minNum (centre + radius) 1) = true ∧
      value (minNum (centre + radius) 1) ≤ 1 ∧
      value centre ≤ value (minNum (centre + radius) 1) ∧
      value (minNum (centre + radius) 1) ≤ value centre + value radius + 2 * unit α := by
  obtain ⟨hc, hc₀, hc₁⟩ := hcentre
  obtain ⟨hr, hr₀, hr₁⟩ := hradius
  have hsize : |value centre + value radius| ≤ 2 := by
    rw [abs_le]
    constructor
    · linarith
    · linarith
  have hrounds := add centre radius hc hr (le_trans hsize (by norm_num))
  have hle : value centre ≤ value (centre + radius) := hrounds.le_value hc (by linarith)
  have herror := abs_le.mp (hrounds.error_le hsize (by norm_num))
  obtain ⟨hfinite, hvalue⟩ := finite_minNum hrounds.finite (isFinite_one (α := α))
  rw [value_one] at hvalue
  rw [hvalue]
  refine ⟨hfinite, min_le_right _ _, le_min hle hc₁, le_trans (min_le_left _ _) ?_⟩
  linarith

end Window

/-- A step into a narrow interval exceeds its width by less than the greatest error. -/
theorem offset_bounds
    {lo hi : α}
    {j : ℕ}
    (hlo : isFinite lo = true)
    (hhi : isFinite hi = true)
    (hle : value lo ≤ value hi)
    (hwidth : value hi - value lo ≤ 27 / 100)
    (hj : j ≤ 10) :
    isFinite ((hi - lo) * (j : α) / ((10 : ℕ) : α)) = true ∧
      0 ≤ value ((hi - lo) * (j : α) / ((10 : ℕ) : α)) ∧
      value ((hi - lo) * (j : α) / ((10 : ℕ) : α)) ≤
        value hi - value lo + 9 / 10 * unit α := by
  have hunit := unit_nonneg (α := α)
  have hunit' := unit_small (α := α)
  have hcast : ((10 : ℕ) : ℝ) = 10 := by norm_num
  have hten : 1 ≤ value ((10 : ℕ) : α) := one_le_value_natCast (by norm_num) (by norm_num)
  have hcount := natCast (α := α) j (by omega)
  have hcount₀ : 0 ≤ value (j : α) := hcount.nonneg (Nat.cast_nonneg j)
  have hcount₁ : value (j : α) ≤ value ((10 : ℕ) : α) := le_value_natCast (by norm_num) hj
  have hten' := abs_le.mp ((natCast (α := α) 10 (by norm_num)).error_le (b := 10)
    (by norm_num) (by norm_num))
  rw [hcast] at hten'
  -- the width
  have hdiff := sub hi lo hhi hlo (abs_le_range (by linarith) (by linarith))
  have hdiff₀ : 0 ≤ value (hi - lo) := hdiff.nonneg (by linarith)
  have hdiff₁ := (abs_le.mp (hdiff.error_le (b := 27 / 100)
    (by rw [abs_of_nonneg (by linarith)]; exact hwidth) (by norm_num))).2
  -- its multiple
  have hmultiple : value (hi - lo) * value (j : α) ≤ 28 / 100 * value ((10 : ℕ) : α) :=
    mul_le_mul (by linarith) hcount₁ hcount₀ (by norm_num)
  have hmultiple₀ := mul_nonneg hdiff₀ hcount₀
  have hprod := mul (hi - lo) (j : α) hdiff.finite hcount.finite
    (abs_le_range hmultiple₀ (by linarith))
  have hprod₀ := hprod.nonneg hmultiple₀
  have hprod₁ := (abs_le.mp (hprod.error_le (b := 28 / 100 * value ((10 : ℕ) : α))
    (by rw [abs_of_nonneg hmultiple₀]; exact hmultiple) (by linarith))).2
  -- and the tenth of that
  have htenth : value ((hi - lo) * (j : α)) / value ((10 : ℕ) : α) ≤
      value (hi - lo) + unit α * (28 / 100) := by
    rw [div_le_iff₀ (by linarith)]
    have hgrow := mul_le_mul_of_nonneg_left hcount₁ hdiff₀
    linarith
  have htenth₀ : 0 ≤ value ((hi - lo) * (j : α)) / value ((10 : ℕ) : α) :=
    div_nonneg hprod₀ (by linarith)
  have hquot := div ((hi - lo) * (j : α)) ((10 : ℕ) : α) hprod.finite
    (natCast (α := α) 10 (by norm_num)).finite (by linarith) (abs_le_range htenth₀ (by linarith))
  have hquot₁ := (abs_le.mp (hquot.error_le (b := 29 / 100)
    (by rw [abs_of_nonneg htenth₀]; linarith) (by norm_num))).2
  exact ⟨hquot.finite, hquot.nonneg htenth₀, by linarith⟩

/-- The parameters of a window about a parameter between `0` and `1` lie between them too. -/
theorem withinUnit_window
    {centre radius t : α}
    (hcentre : WithinUnit centre)
    (hradius : IsRadius radius)
    (h : t ∈ window centre radius) :
    WithinUnit t := by
  obtain ⟨j, hj, rfl⟩ := List.mem_map.mp h
  have hj' : j < 11 := List.mem_range.mp hj
  have hunit := unit_small (α := α)
  have hr := hradius.le
  obtain ⟨hlo, hlo₀, hlo₁, hlo₂⟩ := lowerEnd_bounds hcentre hradius
  obtain ⟨hhi, hhi₁, hhi₀, hhi₂⟩ := upperEnd_bounds hcentre hradius
  obtain ⟨hoffset, hoffset₀, hoffset₁⟩ :=
    offset_bounds (j := j) hlo hhi (by linarith) (by linarith) (by omega)
  have hsum := add _ _ hlo hoffset (abs_le_range (by linarith) (by linarith))
  exact ⟨hsum.finite, hsum.nonneg (by linarith), hsum.value_le_one (by linarith)⟩

theorem isRadius_first
    {n : ℕ}
    (hn : n < 2 ^ 64)
    (height : 8 ≤ n) :
    IsRadius (1 / (n : α)) := by
  have hunit := unit_nonneg (α := α)
  have hunit' := unit_small (α := α)
  have hcast : ((8 : ℕ) : ℝ) = 8 := by norm_num
  have height' := (abs_le.mp ((natCast (α := α) 8 (by norm_num)).error_le (b := 8)
    (by norm_num) (by norm_num))).1
  rw [hcast] at height'
  have hcount : 799 / 100 ≤ value (n : α) := by
    have hle : value ((8 : ℕ) : α) ≤ value (n : α) := le_value_natCast hn height
    linarith
  have hquotient₀ : 0 ≤ 1 / value (n : α) := div_nonneg zero_le_one (by linarith)
  have hquotient₁ : 1 / value (n : α) ≤ 100 / 799 := by
    rw [div_le_iff₀ (by linarith)]
    linarith
  have hrounds := div (1 : α) (n : α) isFinite_one (natCast n hn).finite (by linarith)
  rw [value_one] at hrounds
  have hrounds' := hrounds (abs_le_range hquotient₀ (by linarith))
  have herror := (abs_le.mp (hrounds'.error_le (b := 1)
    (by rw [abs_of_nonneg hquotient₀]; linarith) (by norm_num))).2
  exact ⟨hrounds'.finite, hrounds'.nonneg hquotient₀, by linarith⟩

theorem isRadius_half
    {radius : α}
    (h : IsRadius radius) :
    IsRadius (radius * half) := by
  obtain ⟨hr, hr₀, hr₁⟩ := h
  have hhalf : WithinUnit (half : α) :=
    withinUnit_quotient (i := 1) (n := 2) (by norm_num) (by norm_num) (by norm_num)
  have hle : value radius * value (half : α) ≤ value radius :=
    mul_le_of_le_one_right hr₀ hhalf.le_one
  have hnonneg := mul_nonneg hr₀ hhalf.nonneg
  have hrounds := mul radius half hr hhalf.finite (abs_le_range hnonneg (by linarith))
  exact ⟨hrounds.finite, hrounds.nonneg hnonneg, le_trans (hrounds.value_le hr hle) hr₁⟩

/-- All parameters that a search visits lie between `0` and `1`. -/
theorem withinUnit_of_visits
    {curve : Curve α}
    {query : Point α}
    {n rounds : ℕ}
    {ts : List α}
    {radius : α}
    (hn : n < 2 ^ 64)
    (height : 8 ≤ n)
    (h : Visits curve query n rounds ts radius) :
    IsRadius radius ∧ ∀ t ∈ ts, WithinUnit t := by
  induction h with
  | coarse =>
      exact ⟨isRadius_first hn height, fun t => withinUnit_of_mem_coarse hn.le (by omega)⟩
  | window h hq ih =>
      obtain ⟨hradius, hts⟩ := ih
      refine ⟨isRadius_half hradius, fun t ht => ?_⟩
      rcases List.mem_append.mp ht with ht | ht
      · exact hts t ht
      · exact withinUnit_window (hts _ hq.mem) hradius ht

theorem WithinUnit.mem
    {t : α}
    (h : WithinUnit t) :
    0 ≤ t ∧ t ≤ 1 := by
  rw [le_iff 0 t isFinite_zero h.finite, le_iff t 1 h.finite isFinite_one, value_zero, value_one]
  exact ⟨h.nonneg, h.le_one⟩

end Range

end Search

/-- **What a search finds.**  Let comparing put the finite distances in a total order.  A search
answers nothing exactly when the curve has no point at a finite distance at any coarse parameter.
What it answers is a point of the curve at a finite distance, and the first of the nearest places
among all parameters that it visits.  In rounded arithmetic, that of the doubles among them, its
parameter lies between `0` and `1`.  More rounds, at the same number of coarse parameters, never
make it farther. -/
theorem Curve.nearest?_firstNearest
    {α : Type}
    [Scalar α]
    [Scalar.OrdersFinite α]
    (curve : Curve α)
    (query : Point α)
    (options : Search.Options) :
    (curve.nearest? query options = none ↔
      ∀ i < max options.sampleCount 8, ∀ p,
        curve.pointAt ((i : α) / ((max options.sampleCount 8 - 1 : ℕ) : α)) = some p →
          Scalar.isFinite (p.distanceSq query) = false) ∧
    (∀ q, curve.nearest? query options = some q →
      (curve.pointAt q.t = some q.point ∧ q.distanceSq = q.point.distanceSq query ∧
        Scalar.isFinite q.distanceSq = true) ∧
      (∃ visited radius,
        Search.Visits curve query (max options.sampleCount 8) options.rounds visited radius ∧
        Search.FirstNearest curve query visited q) ∧
      (∀ [Scalar.Rounded α], options.sampleCount < 2 ^ 64 → 0 ≤ q.t ∧ q.t ≤ 1) ∧
      (∀ rounds, options.rounds ≤ rounds →
        ∃ q', curve.nearest? query { options with rounds := rounds } = some q' ∧
          q'.distanceSq ≤ q.distanceSq)) := by
  refine ⟨?_, fun q hq => ?_⟩
  · rw [Curve.nearest?, Option.map_eq_none_iff, Search.foldl_consider_eq_none_iff, Search.coarse,
      List.forall_mem_map]
    simp only [List.mem_range, Search.place?_eq_none_iff]
    rfl
  · obtain ⟨visited, radius, hvisits, hfirst⟩ := Search.nearest?_eq_some_iff.mp hq
    obtain ⟨-, hpoint, hdistance, hfinite⟩ :=
      (Search.place?_eq_some_iff curve query).mp hfirst.place
    refine ⟨⟨hpoint, hdistance, hfinite⟩, ⟨visited, radius, hvisits, hfirst⟩, fun hcount => ?_,
      fun rounds hrounds => ?_⟩
    · have height : 8 ≤ max options.sampleCount 8 := le_max_right _ 8
      have hrange := Search.withinUnit_of_visits (max_lt hcount (by norm_num)) height hvisits
      exact (hrange.2 _ hfirst.mem).mem
    · obtain ⟨more, rfl⟩ := Nat.exists_eq_add_of_le hrounds
      obtain ⟨visited', radius', hinitial, hvisits', hfirst'⟩ :=
        Search.visits_refine hvisits hfirst more
      exact ⟨_, Search.nearest?_eq_some_iff.mpr ⟨visited', radius', hvisits', hfirst'⟩,
        hfirst'.least _ (hinitial.subset hfirst.mem) q hfirst.place⟩

/-- The way from the origin to the first unit point, in double precision. -/
def Segment.unitDouble : Segment Float where
  start := ⟨0, 0, 0⟩
  stop := ⟨1, 0, 0⟩

/-- Among the doubles a search of that way, from beside its end, finds a place between `0` and `1`,
and more rounds never find one farther away. -/
theorem Curve.nearest?_firstNearest_double :
    Scalar.OrdersFinite Float ∧
    ∃ q, (Curve.ofSegment Segment.unitDouble).nearest? ⟨2, 1, 0⟩ {} = some q ∧ 0 ≤ q.t ∧ q.t ≤ 1 ∧
      ∃ q', (Curve.ofSegment Segment.unitDouble).nearest? ⟨2, 1, 0⟩ { rounds := 9 } = some q' ∧
        q'.distanceSq ≤ q.distanceSq := by
  obtain ⟨hnone, hsome⟩ := nearest?_firstNearest (Curve.ofSegment Segment.unitDouble) ⟨2, 1, 0⟩ {}
  refine ⟨inferInstance, ?_⟩
  cases hsearch : (Curve.ofSegment Segment.unitDouble).nearest? ⟨2, 1, 0⟩ {} with
  | none =>
      have hstart := hnone.mp hsearch 0 (by decide) ⟨0, 0, 0⟩ rfl
      cases hstart
  | some q =>
      obtain ⟨-, -, hrange, hrounds⟩ := hsome q hsearch
      obtain ⟨hnonneg, hle⟩ := hrange (by decide)
      exact ⟨q, rfl, hnonneg, hle, hrounds 9 (by decide)⟩

end FieldGeometry
