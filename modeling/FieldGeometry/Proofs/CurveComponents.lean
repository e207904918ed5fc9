import FieldGeometry.Component.Evaluate
import FieldGeometry.Moment
import FieldGeometry.Proofs.LeafReadings
import FieldGeometry.Proofs.SearchTrace
import FieldGeometry.Proofs.StableOrder
import FieldGeometry.Proofs.UnitRescaling

/-!
# The components on curves agree

Pulling a list of points to a curve answers for each of them what searching the curve for that point
alone answers, and stops at the first point that the search cannot place.  Sorting the points along
the curve sorts them by the same places.

Pulling gives each parameter rescaled to the curve's own interval, while sorting compares the
parameters as the search finds them.  The intervals of segments and polylines run from `0` to `1`.
In exact arithmetic and in double precision the search makes its parameters by operations whose
results rescaling to this interval leaves as they are (`Scalar.UnitRescaling`), so the two agree
(`Curve.unchanged_of_nearest?`).
-/

namespace FieldGeometry

section Parameters

variable {α : Type} [Scalar α] [Scalar.UnitRescaling α]

theorem Search.unchanged_of_mem_coarse
    {n : ℕ}
    {t : α}
    (hn : 2 ≤ n)
    (ht : t ∈ coarse n) :
    Scalar.Unchanged t := by
  obtain ⟨i, -, rfl⟩ := List.mem_map.mp ht
  exact Scalar.UnitRescaling.quotient i (n - 1) (by omega)

theorem Search.unchanged_of_mem_window
    {centre radius t : α}
    (hcentre : Scalar.Unchanged centre)
    (ht : t ∈ window centre radius) :
    Scalar.Unchanged t := by
  obtain ⟨j, -, rfl⟩ := List.mem_map.mp ht
  refine Scalar.UnitRescaling.add _ _ ?_
  -- the lower end is the one number or the other
  unfold Scalar.maxNum
  split_ifs
  · exact Scalar.UnitRescaling.zero
  · exact Scalar.UnitRescaling.zero
  · exact Scalar.UnitRescaling.sub _ _ hcentre

theorem Search.unchanged_refine
    {curve : Curve α}
    {query : Point α}
    {best : Placement α}
    (hbest : Scalar.Unchanged best.t)
    (rounds : ℕ)
    (radius : α) :
    Scalar.Unchanged (refine curve query rounds radius best).t := by
  induction rounds generalizing radius best with
  | zero =>
      exact hbest
  | succ rounds ih =>
      refine ih (foldl_closer_induction (P := fun q => Scalar.Unchanged q.t) curve query hbest ?_) _
      intro t ht q hq
      rw [((place?_eq_some_iff curve query).mp hq).1]
      exact unchanged_of_mem_window hbest ht

/-- Rescaling to the interval from `0` to `1` leaves the parameter of a place found by the search as
it is. -/
theorem Curve.unchanged_of_nearest?
    {curve : Curve α}
    {query : Point α}
    {options : Search.Options}
    {q : Placement α}
    (h : curve.nearest? query options = some q) :
    Scalar.Unchanged q.t := by
  obtain ⟨best, hbest, rfl⟩ := Option.map_eq_some_iff.mp h
  have hcount : 2 ≤ options.coarseCount := le_trans (by norm_num) (le_max_right _ 8)
  refine Search.unchanged_refine ?_ _ _
  refine Search.foldl_consider_induction (P := fun q => Scalar.Unchanged q.t) curve query hbest ?_
  intro t ht q hq
  rw [((Search.place?_eq_some_iff curve query).mp hq).1]
  exact Search.unchanged_of_mem_coarse hcount ht

end Parameters

open Scalar Scalar.Rounded in
/-- Among the doubles the search begins at zero. -/
theorem Search.zero_mem_coarse
    {n : ℕ}
    (hn : n ≤ 2 ^ 64)
    (htwo : 2 ≤ n) :
    (0 : Float) ∈ coarse n := by
  have hzero := natCast (α := Float) 0 (by norm_num)
  have hcount := natCast (α := Float) (n - 1) (by omega)
  have hpos : 1 ≤ value ((n - 1 : ℕ) : Float) := one_le_value_natCast (by omega) (by omega)
  have hnum : value ((0 : ℕ) : Float) = 0 := hzero.value_eq_zero Nat.cast_zero
  have hquotient := div _ _ hzero.finite hcount.finite (by linarith) (by simp [hnum])
  have hstart : ((0 : ℕ) : Float) / ((n - 1 : ℕ) : Float) = 0 :=
    Double.eq_zero_of_value_eq_zero hquotient.finite (Double.isOrdinary_quotient 0 (n - 1))
      (hquotient.value_eq_zero (by rw [hnum, zero_div]))
  exact List.mem_map.mpr ⟨0, List.mem_range.mpr (by omega), hstart⟩

namespace Curve

variable {α δ : Type} [Scalar α] {curve : Curve α} {ps : List (Point α)} {options : Search.Options}

theorem length_pull (curve : Curve α) (ps : List (Point α)) (options : Search.Options) :
    (curve.pull ps options).length = ps.length :=
  List.length_map _

theorem getElem?_pull
    (curve : Curve α)
    (options : Search.Options)
    {i : ℕ}
    {p : Point α}
    (hp : ps[i]? = some p) :
    (curve.pull ps options)[i]? = some (curve.nearest? p options) := by
  rw [pull, List.getElem?_map, hp]
  rfl

theorem length_of_pull
    {placed : List (Placement α)}
    (hpull : curve.pull ps options = placed.map some) :
    placed.length = ps.length := by
  rw [← curve.length_pull ps options, hpull, List.length_map]

theorem lt_length_of_pull
    {placed : List (Placement α)}
    (hpull : curve.pull ps options = placed.map some)
    {i : ℕ}
    {p : Point α}
    (hp : ps[i]? = some p) :
    i < placed.length := by
  rw [length_of_pull hpull]
  exact (List.getElem?_eq_some_iff.mp hp).1

/-- The rows of a pull up to the first without a place hold what the search finds for the points. -/
theorem nearest?_of_pull
    {placed : List (Placement α)}
    (hpull : placed.map some <+: curve.pull ps options)
    {i : ℕ}
    {p : Point α}
    (hp : ps[i]? = some p)
    (hi : i < placed.length) :
    curve.nearest? p options = some placed[i] := by
  have hrow := List.prefix_iff_getElem?.mp hpull i (by simpa using hi)
  rw [getElem?_pull curve options hp, List.getElem_map] at hrow
  exact Option.some.inj hrow

/-- The first row of a pull without a place belongs to a point that the search cannot place. -/
theorem nearest?_of_pull_first_none
    {before : List (Placement α)}
    {later : List (Option (Placement α))}
    (hpull : curve.pull ps options = before.map some ++ none :: later) :
    ∃ p, ps[before.length]? = some p ∧ curve.nearest? p options = none := by
  have hlength := congrArg List.length hpull
  rw [length_pull, List.length_append, List.length_map, List.length_cons] at hlength
  have hi : before.length < ps.length := by omega
  refine ⟨_, List.getElem?_eq_getElem hi, ?_⟩
  have hrow := getElem?_pull curve options (List.getElem?_eq_getElem hi)
  rw [hpull, List.getElem?_append_right (by simp), List.length_map, Nat.sub_self] at hrow
  exact (Option.some.inj hrow).symm

/-- Sorting names every point once. -/
theorem sortAlong_perm (curve : Curve α) (ps : List (Point α)) (options : Search.Options) :
    (curve.sortAlong ps options).Perm (List.range ps.length) := by
  have hperm := (curve.sortAlong_stablySorts ps options).perm
  rwa [List.length_map, length_pull] at hperm

end Curve

namespace Path

variable {α δ : Type} [Scalar α] {path : Path α} {ps : List (Point α)} {options : Search.Options}

theorem domain_toCurve (path : Path α) : path.toCurve.domain = (0, 1) := by
  cases path with
  | segment s =>
      rfl
  | polyline l =>
      rfl

/-- The parameters in the interval of the curve are those that the search finds. -/
theorem parametersIn_of_pull
    [Scalar.UnitRescaling α]
    {placed : List (Placement α)}
    (hpull : path.toCurve.pull ps options = placed.map some) :
    placed.map (fun q => q.parameterIn path.toCurve.domain) = placed.map Placement.t := by
  refine List.map_congr_left fun q hq => ?_
  have hrow : some q ∈ path.toCurve.pull ps options := hpull ▸ List.mem_map_of_mem hq
  obtain ⟨p, -, hnearest⟩ := List.mem_map.mp hrow
  rw [domain_toCurve]
  exact Curve.unchanged_of_nearest? hnearest

/-- When every point has a place, they are sorted by the parameters in the interval of the curve. -/
theorem sortAlong_of_pull
    [Scalar.UnitRescaling α]
    {placed : List (Placement α)}
    (hpull : path.toCurve.pull ps options = placed.map some) :
    StablySorts Scalar.precedes (placed.map fun q => q.parameterIn path.toCurve.domain)
      (path.toCurve.sortAlong ps options) := by
  rw [parametersIn_of_pull hpull]
  refine StablySorts.of_positions ?_
  have hkeys : (path.toCurve.pull ps options).map (·.map Placement.t) =
      (placed.map Placement.t).map some := by
    rw [hpull, List.map_map, List.map_map]
    rfl
  rw [← hkeys]
  exact path.toCurve.sortAlong_stablySorts ps options

end Path

namespace Component

section Placements

variable {α : Type}

/-- Either everything in a list of options is there, or one thing is the first that is missing. -/
theorem all_some_or_first_none (rows : List (Option α)) :
    (∃ xs : List α, rows = xs.map some) ∨
      ∃ (xs : List α) (later : List (Option α)), rows = xs.map some ++ none :: later := by
  induction rows with
  | nil =>
      exact Or.inl ⟨[], rfl⟩
  | cons row rows ih =>
      cases row with
      | none =>
          exact Or.inr ⟨[], rows, rfl⟩
      | some x =>
          rcases ih with ⟨xs, rfl⟩ | ⟨xs, later, rfl⟩
          · exact Or.inl ⟨x :: xs, rfl⟩
          · exact Or.inr ⟨x :: xs, later, rfl⟩

theorem allPlaced_map_some (c : Component) (i : ℕ) (placed : List (Placement α)) :
    allPlaced c i (placed.map some) = .ok placed := by
  induction placed generalizing i with
  | nil =>
      rfl
  | cons q placed ih =>
      rw [List.map_cons, allPlaced, ih]
      rfl

/-- The failure names the index of the first point without a place. -/
theorem allPlaced_first_none
    (c : Component)
    (i : ℕ)
    (before : List (Placement α))
    (later : List (Option (Placement α))) :
    allPlaced c i (before.map some ++ none :: later) =
      .error (.unplaceable c (i + before.length)) := by
  induction before generalizing i with
  | nil =>
      rfl
  | cons q before ih =>
      rw [List.map_cons, List.cons_append, allPlaced, ih, List.length_cons, Nat.add_right_comm]
      rfl

theorem map_some_filterMap_getElem?
    {xs : List α}
    {order : List ℕ}
    (h : ∀ i ∈ order, i < xs.length) :
    (order.filterMap fun i => xs[i]?).map some = order.map fun i => xs[i]? := by
  induction order with
  | nil =>
      rfl
  | cons i order ih =>
      rw [List.forall_mem_cons] at h
      have hi : xs[i]? = some xs[i] := List.getElem?_eq_getElem h.1
      rw [List.filterMap_cons_some hi, List.map_cons, List.map_cons, ih h.2, hi]

end Placements

section Runs

variable {α δ : Type} [Scalar α] {path : Path α} {rest : List (Value α δ)}
  {options : Search.Options}

/-- Curve Closest Point for one point and a curve, with the pins that follow. -/
def closestAlone (path : Path α) (rest : List (Value α δ)) (p : Point α) :
    Except Failure (Outputs α δ) :=
  evaluate .curveClosestPoint (.point p :: .curve path :: rest)

/-- Pull Point for a list of points and a curve, with the pins that follow. -/
def pulled (path : Path α) (rest : List (Value α δ)) (ps : List (Point α)) :
    Except Failure (Outputs α δ) :=
  evaluate .pullPoint (.points ps :: .curve path :: rest)

/-- Sort Along Curve for a list of points and a curve, with the pins that follow. -/
def sortedAlong (path : Path α) (rest : List (Value α δ)) (ps : List (Point α)) :
    Except Failure (Outputs α δ) :=
  evaluate .sortAlongCurve (.points ps :: .curve path :: rest)

/-- The outputs that hold one place on a curve. -/
def onePlace (curve : Curve α) (q : Placement α) : Outputs α δ :=
  [("P", .point q.point), ("t", .number (q.parameterIn curve.domain)), ("D", .number q.distance)]

/-- The outputs that hold several places on a curve. -/
def manyPlaces (curve : Curve α) (qs : List (Placement α)) : Outputs α δ :=
  [("P", .points (qs.map (·.point))), ("t", .numbers (qs.map fun q => q.parameterIn curve.domain)),
    ("D", .numbers (qs.map Placement.distance))]

theorem needCurve_curve (c : Component) (path : Path α) :
    needCurve c (some (.curve path) : Pin α δ) = .ok path.toCurve := by
  rfl

variable (hoptions : Pin.searchOptions rest[0]? = .ok options)

include hoptions

theorem closestAlone_eq
    {p : Point α}
    (hp : p.isFinite = true) :
    closestAlone path rest p =
      match path.toCurve.nearest? p options with
      | none => .error (.unplaceable .curveClosestPoint 0)
      | some q => .ok (onePlace path.toCurve q) := by
  show curveClosestPointAt _ = _
  simp only [curveClosestPointAt, List.getElem?_cons_zero, List.getElem?_cons_succ,
    Pin.points_point hp, needCurve_curve, hoptions, bind, Except.bind]
  cases path.toCurve.nearest? p options with
  | none =>
      rfl
  | some q =>
      rfl

variable {ps : List (Point α)} (hfinite : ∀ p ∈ ps, p.isFinite = true)

include hfinite

theorem pulled_eq :
    pulled path rest ps =
      (allPlaced .pullPoint 0 (path.toCurve.pull ps options)).map (manyPlaces path.toCurve) := by
  show pullPointAt _ = _
  simp only [pullPointAt, List.getElem?_cons_zero, List.getElem?_cons_succ,
    Pin.points_points hfinite, needCurve_curve, hoptions, bind, Except.bind]
  cases allPlaced .pullPoint 0 (path.toCurve.pull ps options) with
  | error failure =>
      rfl
  | ok placed =>
      rfl

theorem sortedAlong_eq :
    sortedAlong path rest ps =
      .ok [("P", .points ((path.toCurve.sortAlong ps options).filterMap fun i => ps[i]?)),
        ("I", .numbers ((path.toCurve.sortAlong ps options).map fun (i : ℕ) => (i : α)))] := by
  show sortAlongCurveAt _ = _
  simp only [sortAlongCurveAt, List.getElem?_cons_zero, List.getElem?_cons_succ,
    Pin.points_points hfinite, needCurve_curve, hoptions]
  rfl

/-- Pulling points to a curve gives the places of all of them, or names the first without one. -/
theorem pulled_cases :
    (∃ placed : List (Placement α),
      path.toCurve.pull ps options = placed.map some ∧
        pulled path rest ps = .ok (manyPlaces path.toCurve placed)) ∨
    (∃ (before : List (Placement α)) (later : List (Option (Placement α))),
      path.toCurve.pull ps options = before.map some ++ none :: later ∧
        pulled path rest ps = .error (.unplaceable .pullPoint before.length)) := by
  rw [pulled_eq hoptions hfinite]
  rcases all_some_or_first_none (path.toCurve.pull ps options) with
    ⟨placed, hpull⟩ | ⟨before, later, hpull⟩
  · rw [hpull, allPlaced_map_some]
    exact Or.inl ⟨placed, rfl, rfl⟩
  · rw [hpull, allPlaced_first_none, Nat.zero_add]
    exact Or.inr ⟨before, later, rfl, rfl⟩

/-- A point that pulling finds a place for is given this place alone as well. -/
theorem closestAlone_of_pull
    {placed : List (Placement α)}
    (hpull : placed.map some <+: path.toCurve.pull ps options)
    {i : ℕ}
    {p : Point α}
    (hp : ps[i]? = some p)
    (hi : i < placed.length) :
    closestAlone path rest p = .ok (onePlace path.toCurve placed[i]) := by
  rw [closestAlone_eq hoptions (hfinite p (List.mem_of_getElem? hp)),
    Curve.nearest?_of_pull hpull hp hi]

theorem closestAlone_of_pull_first_none
    {before : List (Placement α)}
    {later : List (Option (Placement α))}
    (hpull : path.toCurve.pull ps options = before.map some ++ none :: later) :
    ∃ p, ps[before.length]? = some p ∧
      closestAlone path rest p = .error (.unplaceable .curveClosestPoint 0) := by
  obtain ⟨p, hp, hnearest⟩ := Curve.nearest?_of_pull_first_none hpull
  refine ⟨p, hp, ?_⟩
  rw [closestAlone_eq hoptions (hfinite p (List.mem_of_getElem? hp)), hnearest]

/-- Pulling succeeds when each point has a place of its own. -/
theorem pulled_ok_iff :
    (∃ outputs, pulled path rest ps = .ok outputs) ↔
      ∀ p ∈ ps, ∃ outputs, closestAlone path rest p = .ok outputs := by
  rcases pulled_cases hoptions hfinite with
    ⟨placed, hpull, hpulled⟩ | ⟨before, later, hpull, hpulled⟩
  · refine iff_of_true ⟨_, hpulled⟩ fun p hp => ?_
    obtain ⟨i, hrow⟩ := List.mem_iff_getElem?.mp hp
    have hi : i < placed.length := Curve.lt_length_of_pull hpull hrow
    exact ⟨_, closestAlone_of_pull hoptions hfinite (hpull ▸ List.prefix_rfl) hrow hi⟩
  · refine iff_of_false (fun ⟨outputs, hok⟩ => ?_) fun hall => ?_
    · rw [hpulled] at hok
      cases hok
    · obtain ⟨p, hp, halone⟩ := closestAlone_of_pull_first_none hoptions hfinite hpull
      obtain ⟨outputs, hok⟩ := hall p (List.mem_of_getElem? hp)
      rw [halone] at hok
      cases hok

/-- Pulling that fails names the first of the points without a place of its own. -/
theorem pulled_error
    {failure : Failure}
    (h : pulled path rest ps = .error failure) :
    ∃ i p, failure = .unplaceable .pullPoint i ∧ ps[i]? = some p ∧
      closestAlone path rest p = .error (.unplaceable .curveClosestPoint 0) ∧
      ∀ j < i, ∀ p', ps[j]? = some p' → ∃ outputs, closestAlone path rest p' = .ok outputs := by
  rcases pulled_cases hoptions hfinite with ⟨placed, -, hpulled⟩ | ⟨before, later, hpull, hpulled⟩
  · rw [hpulled] at h
    cases h
  · rw [hpulled] at h
    cases h
    obtain ⟨p, hp, halone⟩ := closestAlone_of_pull_first_none hoptions hfinite hpull
    have hbefore : before.map some <+: path.toCurve.pull ps options :=
      hpull ▸ List.prefix_append _ _
    exact ⟨_, p, rfl, hp, halone, fun j hj p' hp' =>
      ⟨_, closestAlone_of_pull hoptions hfinite hbefore hp' hj⟩⟩

/-- Each entry of the outputs of pulling is what its point is given alone. -/
theorem closestAlone_of_placed
    {placed : List (Placement α)}
    (hpull : path.toCurve.pull ps options = placed.map some)
    {i : ℕ}
    {p : Point α}
    (hp : ps[i]? = some p) :
    ∃ q t d,
      (placed.map (·.point))[i]? = some q ∧
      (placed.map fun q => q.parameterIn path.toCurve.domain)[i]? = some t ∧
      (placed.map Placement.distance)[i]? = some d ∧
      closestAlone path rest p = .ok [("P", .point q), ("t", .number t), ("D", .number d)] := by
  have hi : i < placed.length := Curve.lt_length_of_pull hpull hp
  refine ⟨placed[i].point, placed[i].parameterIn path.toCurve.domain, placed[i].distance,
    ?_, ?_, ?_, closestAlone_of_pull hoptions hfinite (hpull ▸ List.prefix_rfl) hp hi⟩
  all_goals rw [List.getElem?_map, List.getElem?_eq_getElem hi, Option.map_some]

/-- Sorting answers the points in the order of the indices it answers. -/
theorem sortedAlong_points :
    ∃ sorted : List (Point α),
      sortedAlong path rest ps =
        .ok [("P", .points sorted),
          ("I", .numbers ((path.toCurve.sortAlong ps options).map fun (i : ℕ) => (i : α)))] ∧
      sorted.map some = (path.toCurve.sortAlong ps options).map fun i => ps[i]? := by
  refine ⟨_, sortedAlong_eq hoptions hfinite, map_some_filterMap_getElem? fun i hi => ?_⟩
  exact List.mem_range.mp ((Curve.sortAlong_perm _ _ _).subset hi)

end Runs

/-- **The components on curves agree.**  Take finite points, a curve, and pins that follow, of which
the first holds an accepted number of samples.  Pull Point succeeds when Curve Closest Point
succeeds for each point alone, and names the first point without a place when it fails.  When it
succeeds, its lists hold what Curve Closest Point answers for the points in turn, and Sort Along
Curve answers the points in the stable order of the parameters among them, among the doubles as in
exact arithmetic. -/
theorem pulled_agrees
    {α δ : Type}
    [Scalar α]
    (path : Path α)
    {rest : List (Value α δ)}
    {options : Search.Options}
    {ps : List (Point α)}
    (hoptions : Pin.searchOptions rest[0]? = .ok options)
    (hfinite : ∀ p ∈ ps, p.isFinite = true) :
    ((∃ outputs, pulled path rest ps = .ok outputs) ↔
      ∀ p ∈ ps, ∃ outputs, closestAlone path rest p = .ok outputs) ∧
    (∀ failure, pulled path rest ps = .error failure →
      ∃ (i : ℕ) (p : Point α), failure = .unplaceable .pullPoint i ∧ ps[i]? = some p ∧
        closestAlone path rest p = .error (.unplaceable .curveClosestPoint 0) ∧
        ∀ j < i, ∀ p', ps[j]? = some p' → ∃ outputs, closestAlone path rest p' = .ok outputs) ∧
    (∀ outputs, pulled path rest ps = .ok outputs →
      ∃ (points : List (Point α)) (ts ds : List α),
        outputs = [("P", .points points), ("t", .numbers ts), ("D", .numbers ds)] ∧
        (points.length = ps.length ∧ ts.length = ps.length ∧ ds.length = ps.length) ∧
        (∀ (i : ℕ) (p : Point α), ps[i]? = some p →
          ∃ q t d, points[i]? = some q ∧ ts[i]? = some t ∧ ds[i]? = some d ∧
            closestAlone path rest p = .ok [("P", .point q), ("t", .number t), ("D", .number d)]) ∧
        ∃ (order : List ℕ) (sorted : List (Point α)),
          sortedAlong path rest ps =
            .ok [("P", .points sorted), ("I", .numbers (order.map fun (i : ℕ) => (i : α)))] ∧
          sorted.map some = order.map (fun i => ps[i]?) ∧
          order.Perm (List.range ps.length) ∧
          ∀ [Scalar.UnitRescaling α], StablySorts Scalar.precedes ts order) := by
  refine ⟨pulled_ok_iff hoptions hfinite, fun failure => pulled_error hoptions hfinite,
    fun outputs hok => ?_⟩
  rcases pulled_cases hoptions hfinite with ⟨placed, hpull, hpulled⟩ | ⟨_, _, -, hpulled⟩
  · rw [hpulled] at hok
    cases hok
    have hlength : placed.length = ps.length := Curve.length_of_pull hpull
    obtain ⟨sorted, hsorted, hpoints⟩ := sortedAlong_points hoptions hfinite
    refine ⟨placed.map (·.point), placed.map fun q => q.parameterIn path.toCurve.domain,
      placed.map Placement.distance, rfl, by simp [hlength],
      fun i p hp => closestAlone_of_placed hoptions hfinite hpull hp, ?_⟩
    exact ⟨path.toCurve.sortAlong ps options, sorted, hsorted, hpoints,
      path.toCurve.sortAlong_perm ps options, Path.sortAlong_of_pull hpull⟩
  · rw [hpulled] at hok
    cases hok

section Doubles

/-- The side of the unit square along the first axis, in double precision. -/
def unitSide : Path Float :=
  .segment Segment.unitDouble

/-- Both ends of the side have places on it. -/
theorem closestAlone_unitSide
    {p : Point Float}
    (hp : p ∈ ([⟨1, 0, 0⟩, ⟨0, 0, 0⟩] : List (Point Float))) :
    ∃ outputs, closestAlone unitSide ([] : List (Value Float Moment)) p = .ok outputs := by
  have hends : p.isFinite = true ∧ (Search.place? unitSide.toCurve p 0).isSome := by
    simp only [List.mem_cons, List.not_mem_nil, or_false] at hp
    rcases hp with rfl | rfl
    · decide +kernel
    · decide +kernel
  obtain ⟨options, hoptions, hcount⟩ : ∃ options,
      Pin.searchOptions ([] : List (Value Float Moment))[0]? = .ok options ∧
        options.sampleCount < 2 ^ 64 :=
    ⟨_, rfl, UInt64.toNat_lt _⟩
  have hstart : (0 : Float) ∈ Search.coarse options.coarseCount :=
    Search.zero_mem_coarse (max_le hcount.le (by norm_num))
      (le_trans (by norm_num) (le_max_right _ 8))
  rw [closestAlone_eq hoptions hends.1]
  cases hsearch : unitSide.toCurve.nearest? p options with
  | none =>
      have hnone := Search.foldl_consider_eq_none_iff.mp (Option.map_eq_none_iff.mp hsearch)
      rw [hnone 0 hstart] at hends
      exact absurd hends.2 Bool.false_ne_true
  | some q =>
      exact ⟨_, rfl⟩

/-- Among the doubles both ends of the side have places on it, and are sorted by these. -/
theorem pulled_agrees_unitSide :
    ∃ (points : List (Point Float)) (ts ds : List Float) (order : List ℕ)
      (sorted : List (Point Float)),
      pulled unitSide ([] : List (Value Float Moment)) [⟨1, 0, 0⟩, ⟨0, 0, 0⟩] =
        .ok [("P", .points points), ("t", .numbers ts), ("D", .numbers ds)] ∧
      ts.length = 2 ∧
      sortedAlong unitSide ([] : List (Value Float Moment)) [⟨1, 0, 0⟩, ⟨0, 0, 0⟩] =
        .ok [("P", .points sorted), ("I", .numbers (order.map fun (i : ℕ) => (i : Float)))] ∧
      order.Perm [0, 1] ∧
      StablySorts Scalar.precedes ts order := by
  have hoptions : Pin.searchOptions ([] : List (Value Float Moment))[0]? = .ok _ := rfl
  have hfinite : ∀ p ∈ ([⟨1, 0, 0⟩, ⟨0, 0, 0⟩] : List (Point Float)), p.isFinite = true := by
    decide
  obtain ⟨hiff, -, hsuccess⟩ := pulled_agrees unitSide hoptions hfinite
  obtain ⟨outputs, hok⟩ := hiff.mpr fun p hp => closestAlone_unitSide hp
  obtain ⟨points, ts, ds, rfl, hlengths, -, order, sorted, hsorted, -, hperm, hstable⟩ :=
    hsuccess outputs hok
  exact ⟨points, ts, ds, order, sorted, hok, hlengths.2.1, hsorted, hperm, hstable⟩

end Doubles

end Component

end FieldGeometry
