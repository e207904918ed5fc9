import FieldGeometry.Moment
import FieldGeometry.Proofs.Exact
import FieldGeometry.Proofs.LeafReadings
import FieldGeometry.Proofs.PinReadings

/-!
# Lists of points

Nine components read a list of points at one of their pins.  The list is read flat: of a value in
which lists nest, the finite points count, in the order in which they are met depth first, and
missing values and points that are not finite are passed over (`Pin.points_of_holdsPoints`).  A leaf
of any other kind ends the reading, and the first one decides the failure
(`Pin.points_of_first_other`).

Such a component sees the pin through this reader only (`Component.evaluate_congr_points`), so
values with the same points are interchangeable there.  The components that answer for each point
make the same of a point in a list as of a point alone (`Component.answersEach_of_points`).
-/

namespace FieldGeometry

namespace Value

variable {α δ : Type} [Scalar α]

/-- A value that is no list and that a reader of points takes: a point, or no value. -/
def IsPointOrNull (v : Value α δ) : Prop :=
  v = .null ∨ ∃ p, v = .point p

/-- Every value inside is a point or no value. -/
def HoldsPoints (v : Value α δ) : Prop :=
  ∀ leaf ∈ v.leaves, leaf.IsPointOrNull

/-- The finite points inside a value, depth first and from left to right. -/
def finitePoints (v : Value α δ) : List (Point α) :=
  v.leaves.filterMap finitePoint?

theorem isFinite_of_finitePoint?
    {v : Value α δ}
    {p : Point α}
    (h : v.finitePoint? = some p) :
    p.isFinite = true := by
  cases v with
  | point q =>
      simp only [finitePoint?, Pin.finitePoint?] at h
      split at h
      · rename_i hfinite
        cases h
        exact hfinite
      · cases h
  | _ =>
      cases h

theorem isFinite_of_mem_finitePoints
    {v : Value α δ}
    {p : Point α}
    (h : p ∈ v.finitePoints) :
    p.isFinite = true := by
  obtain ⟨leaf, -, hleaf⟩ := List.mem_filterMap.mp h
  exact isFinite_of_finitePoint? hleaf

end Value

namespace Pin

variable {α δ : Type} [Scalar α]

theorem leafPoint_of_isPointOrNull
    {v : Value α δ}
    (h : v.IsPointOrNull) :
    leafPoint v = .ok v.finitePoint? := by
  rcases h with rfl | ⟨p, rfl⟩
  · rfl
  · rfl

theorem leafPoint_of_not_isPointOrNull
    {v : Value α δ}
    (h : ¬ v.IsPointOrNull) :
    leafPoint v = .error (.mismatch .point v.kind) := by
  cases v with
  | null =>
      exact absurd (Or.inl rfl) h
  | point p =>
      exact absurd (Or.inr ⟨p, rfl⟩) h
  | _ =>
      rfl

theorem leafPoint_eq_ok_iff (v : Value α δ) : (∃ x?, leafPoint v = .ok x?) ↔ v.IsPointOrNull := by
  constructor
  · rintro ⟨x?, hread⟩
    by_contra h
    rw [leafPoint_of_not_isPointOrNull h] at hread
    cases hread
  · exact fun h => ⟨_, leafPoint_of_isPointOrNull h⟩

/-- A value that holds more than points has a first leaf of another kind. -/
theorem exists_first_other
    {v : Value α δ}
    (h : ¬ v.HoldsPoints) :
    ∃ (before after : List (Value α δ)) (leaf : Value α δ),
      v.leaves = before ++ leaf :: after ∧
        (∀ u ∈ before, u.IsPointOrNull) ∧ ¬ leaf.IsPointOrNull := by
  rcases all_read_or_first_refused leafPoint v.leaves with
    hall | ⟨before, after, leaf, failure, hleaves, hbefore, hleaf⟩
  · exact absurd (fun u hu => (leafPoint_eq_ok_iff u).mp (hall u hu)) h
  · refine ⟨before, after, leaf, hleaves, fun u hu => (leafPoint_eq_ok_iff u).mp (hbefore u hu), ?_⟩
    intro hpoint
    rw [leafPoint_of_isPointOrNull hpoint] at hleaf
    cases hleaf

/-- Points in nested lists are read flat. -/
theorem points_of_holdsPoints
    {v : Value α δ}
    (h : v.HoldsPoints) :
    points (some v) = .ok v.finitePoints :=
  collect_of_ok fun leaf hleaf => leafPoint_of_isPointOrNull (h leaf hleaf)

/-- The first leaf of another kind ends the reading. -/
theorem points_of_first_other
    {v leaf : Value α δ}
    {before after : List (Value α δ)}
    (hleaves : v.leaves = before ++ leaf :: after)
    (hbefore : ∀ u ∈ before, u.IsPointOrNull)
    (hleaf : ¬ leaf.IsPointOrNull) :
    points (some v) = .error (.mismatch .point leaf.kind) := by
  show collect leafPoint v.leaves = _
  rw [hleaves]
  exact collect_of_first_error (fun u hu => ⟨_, leafPoint_of_isPointOrNull (hbefore u hu)⟩)
    (leafPoint_of_not_isPointOrNull hleaf) after

end Pin

namespace Component

variable {α δ : Type} [Scalar α]

/-- The pin at which a component reads a list of points, if it does. -/
def pointsPin? : Component → Option Nat
  | .xyPlane | .xzPlane | .yzPlane | .planeNormal | .planeFit => some 0
  | .curveClosestPoint | .sortAlongCurve | .pullPoint => some 0
  | .evaluateField => some 1
  | _ => none

/-- The components that answer for each point of a list. -/
def answersPoints : Component → Bool
  | .xyPlane | .xzPlane | .yzPlane | .planeNormal | .evaluateField => true
  | _ => false

/-- A pin before the points has been refused. -/
def RefusesEarlier (c : Component) (inputs : List (Value α δ)) (failure : Failure) : Prop :=
  c = .evaluateField ∧ needField .evaluateField inputs[0]? = .error failure

section Reading

variable {c : Component} {k : Nat} {inputs inputs' : List (Value α δ)}

/-- What a component makes of its list of points depends on the points that are read. -/
theorem evaluate_congr_points
    (hpin : c.pointsPin? = some k)
    (hpoints : Pin.points inputs[k]? = Pin.points inputs'[k]?)
    (hrest : ∀ i, i ≠ k → inputs[i]? = inputs'[i]?) :
    c.evaluate inputs = c.evaluate inputs' := by
  cases c with
  | xyPlane =>
      cases hpin
      simp only [evaluate, worldPlane, hpoints]
  | xzPlane =>
      cases hpin
      simp only [evaluate, worldPlane, hpoints]
  | yzPlane =>
      cases hpin
      simp only [evaluate, worldPlane, hpoints]
  | planeNormal =>
      cases hpin
      simp only [evaluate, planeNormalAt, hpoints, hrest 1 (by decide)]
  | planeFit =>
      cases hpin
      simp only [evaluate, planeFitAt, hpoints]
  | curveClosestPoint =>
      cases hpin
      simp only [evaluate, curveClosestPointAt, hpoints, hrest 1 (by decide), hrest 2 (by decide)]
  | sortAlongCurve =>
      cases hpin
      simp only [evaluate, sortAlongCurveAt, hpoints, hrest 1 (by decide), hrest 2 (by decide)]
  | pullPoint =>
      cases hpin
      simp only [evaluate, pullPointAt, hpoints, hrest 1 (by decide), hrest 2 (by decide)]
  | evaluateField =>
      cases hpin
      simp only [evaluate, evaluateFieldAt, hpoints, hrest 0 (by decide)]
  | _ =>
      cases hpin

/-- Points that are refused are the failure of a component that reads them first. -/
theorem evaluate_of_points_error
    {failure : Failure}
    (hfirst : c ≠ .evaluateField)
    (hpin : c.pointsPin? = some k)
    (hpoints : Pin.points inputs[k]? = .error failure) :
    c.evaluate inputs = .error failure := by
  cases c with
  | xyPlane | xzPlane | yzPlane =>
      cases hpin
      simp only [evaluate, worldPlane, hpoints]
      rfl
  | planeNormal =>
      cases hpin
      simp only [evaluate, planeNormalAt, hpoints]
      rfl
  | planeFit =>
      cases hpin
      simp only [evaluate, planeFitAt, hpoints]
      rfl
  | curveClosestPoint =>
      cases hpin
      simp only [evaluate, curveClosestPointAt, hpoints]
      rfl
  | sortAlongCurve =>
      cases hpin
      simp only [evaluate, sortAlongCurveAt, hpoints]
      rfl
  | pullPoint =>
      cases hpin
      simp only [evaluate, pullPointAt, hpoints]
      rfl
  | evaluateField =>
      exact absurd rfl hfirst
  | _ =>
      cases hpin

theorem evaluateField_of_field_error
    {failure : Failure}
    (hfield : needField .evaluateField inputs[0]? = .error failure) :
    evaluateField.evaluate inputs = .error failure := by
  simp only [evaluate, evaluateFieldAt, hfield]
  rfl

/-- Points that are refused are the failure of the component, unless it has failed before. -/
theorem evaluate_of_points_refused
    {failure : Failure}
    (hpin : c.pointsPin? = some k)
    (hpoints : Pin.points inputs[k]? = .error failure) :
    (∃ earlier, c.RefusesEarlier inputs earlier ∧ c.evaluate inputs = .error earlier) ∨
      ((∀ earlier, ¬ c.RefusesEarlier inputs earlier) ∧ c.evaluate inputs = .error failure) := by
  by_cases hc : c = .evaluateField
  · subst hc
    cases hpin
    cases hfield : needField .evaluateField inputs[0]? with
    | error earlier =>
        exact Or.inl ⟨earlier, ⟨rfl, hfield⟩, evaluateField_of_field_error hfield⟩
    | ok f =>
        refine Or.inr ⟨?_, ?_⟩
        · rintro earlier ⟨-, hrefused⟩
          rw [hfield] at hrefused
          cases hrefused
        · simp only [evaluate, evaluateFieldAt, hfield, hpoints]
          rfl
  · exact Or.inr ⟨fun earlier hrefuses => hc hrefuses.1, evaluate_of_points_error hc hpin hpoints⟩

end Reading

section Answers

/-- What several points are given together is a list for each output, with what each point is given
alone; or neither they nor any point alone are given anything. -/
def AnswersEach
    (alone : Point α → Except Failure (Outputs α δ))
    (ps : List (Point α))
    (together : Except Failure (Outputs α δ)) : Prop :=
  (∃ failure, together = .error failure ∧ ∀ p ∈ ps, alone p = .error failure) ∨
    ∃ (pins : List String) (value : String → Point α → Value α δ),
      together = .ok (pins.map fun pin => (pin, .list (ps.map (value pin)))) ∧
        ∀ p ∈ ps, alone p = .ok (pins.map fun pin => (pin, value pin p))

theorem exists_two_of_length
    {β : Type}
    {xs : List β}
    (h : 2 ≤ xs.length) :
    ∃ x y rest, xs = x :: y :: rest := by
  obtain ⟨x, tail, rfl⟩ := List.exists_cons_of_length_pos (Nat.lt_of_lt_of_le Nat.zero_lt_two h)
  obtain ⟨y, rest, rfl⟩ := List.exists_cons_of_length_pos (Nat.lt_of_succ_lt_succ h)
  exact ⟨x, y, rest, rfl⟩

theorem planePerOrigin_of_two_le
    {ps : List (Point α)}
    (h : 2 ≤ ps.length)
    (make : Point α → Frame α) :
    (planePerOrigin ps make : Outputs α δ) = [("P", .list (ps.map fun p => .frame (make p)))] := by
  obtain ⟨p, q, rest, rfl⟩ := exists_two_of_length h
  simp [planePerOrigin, manyPlanes, Value.frames]

variable {ps : List (Point α)} {alone : Point α → Except Failure (Outputs α δ)}
  {together : Except Failure (Outputs α δ)}

/-- Planes at several origins are the planes at each of them. -/
theorem answersEach_planes
    (make? : Except Failure (Point α → Frame α))
    (htwo : 2 ≤ ps.length)
    (halone : ∀ p ∈ ps, alone p = make?.map (planePerOrigin [p]))
    (htogether : together = make?.map (planePerOrigin ps)) :
    AnswersEach alone ps together := by
  cases make? with
  | error failure =>
      exact Or.inl ⟨failure, htogether, halone⟩
  | ok make =>
      refine Or.inr ⟨["P"], fun _ p => .frame (make p), ?_, halone⟩
      rw [htogether]
      exact congrArg Except.ok (planePerOrigin_of_two_le htwo make)

variable {inputs : List (Value α δ)}

theorem worldPlane_of_points
    (hpoints : Pin.points inputs[0]? = .ok ps)
    (make : Point α → Frame α) :
    worldPlane make inputs = .ok (planePerOrigin ps make) := by
  simp only [worldPlane, hpoints]
  rfl

theorem planeNormal_of_points (hpoints : Pin.points inputs[0]? = .ok ps) :
    planeNormal.evaluate inputs =
      ((Pin.vector inputs[1]?).map fun normal? origin =>
        Frame.ofNormal origin (normal?.getD Vec.basisZ)).map (planePerOrigin ps) := by
  simp only [evaluate, planeNormalAt, hpoints]
  cases Pin.vector inputs[1]? with
  | error failure =>
      rfl
  | ok normal? =>
      rfl

theorem evaluateField_of_points
    {field points : Value α δ}
    {f : Field α}
    (hfield : needField .evaluateField (some field) = .ok f)
    (hpoints : Pin.points (some points) = .ok ps)
    (htwo : 2 ≤ ps.length)
    (later : List (Value α δ)) :
    evaluateField.evaluate (field :: points :: later) =
      .ok [("T", .list (ps.map fun p => tensorEntry (f.evaluate p))),
        ("S", .list (ps.map fun p => .number (f.evaluate p).strength))] := by
  obtain ⟨p, q, rest, rfl⟩ := exists_two_of_length htwo
  simp only [evaluate, evaluateFieldAt, List.getElem?_cons_zero, List.getElem?_cons_succ, hfield,
    hpoints]
  simp [bind, Except.bind, pure, Except.pure, Value.numbers]

theorem evaluateField_of_point
    {field points : Value α δ}
    {f : Field α}
    {p : Point α}
    (hfield : needField .evaluateField (some field) = .ok f)
    (hpoints : Pin.points (some points) = .ok [p])
    (later : List (Value α δ)) :
    evaluateField.evaluate (field :: points :: later) =
      .ok [("T", tensorEntry (f.evaluate p)), ("S", .number (f.evaluate p).strength)] := by
  simp only [evaluate, evaluateFieldAt, List.getElem?_cons_zero, List.getElem?_cons_succ, hfield,
    hpoints]
  rfl

/-- A component that answers for each point makes the same of a point among several as of the point
alone. -/
theorem answersEach_of_points
    {c : Component}
    {earlier : List (Value α δ)}
    {v : Value α δ}
    (hanswers : c.answersPoints = true)
    (hpin : c.pointsPin? = some earlier.length)
    (hpoints : Pin.points (some v) = .ok ps)
    (hfinite : ∀ p ∈ ps, p.isFinite = true)
    (htwo : 2 ≤ ps.length)
    (later : List (Value α δ)) :
    AnswersEach (fun p => c.evaluate (earlier ++ .point p :: later)) ps
      (c.evaluate (earlier ++ v :: later)) := by
  have hpoint : ∀ p ∈ ps, Pin.points (some (.point p) : Pin α δ) = .ok [p] := fun p hp =>
    Pin.points_point (hfinite p hp)
  cases c with
  | xyPlane | xzPlane | yzPlane =>
      obtain rfl : earlier = [] := List.eq_nil_of_length_eq_zero (Option.some.inj hpin).symm
      exact answersEach_planes (.ok _) htwo
        (fun p hp => worldPlane_of_points (hpoint p hp) _) (worldPlane_of_points hpoints _)
  | planeNormal =>
      obtain rfl : earlier = [] := List.eq_nil_of_length_eq_zero (Option.some.inj hpin).symm
      exact answersEach_planes _ htwo (fun p hp => planeNormal_of_points (hpoint p hp))
        (planeNormal_of_points hpoints)
  | evaluateField =>
      obtain ⟨field, rfl⟩ := List.length_eq_one_iff.mp (Option.some.inj hpin).symm
      cases hfield : needField .evaluateField (some field) with
      | error failure =>
          refine Or.inl ⟨failure, ?_, fun p hp => ?_⟩
          · exact evaluateField_of_field_error hfield
          · exact evaluateField_of_field_error hfield
      | ok f =>
          refine Or.inr ⟨["T", "S"], fun pin p =>
            if pin = "T" then tensorEntry (f.evaluate p) else .number (f.evaluate p).strength,
            ?_, fun p hp => ?_⟩
          · exact evaluateField_of_points hfield hpoints htwo later
          · exact evaluateField_of_point hfield (hpoint p hp) later
  | _ =>
      cases hanswers

end Answers

/-- **Lists of points.**  Take a component that reads a list of points, the pins before it and the
pins after it.  Values with the same finite points in the same order, among which there are
otherwise missing values and points that are not finite only, give the same there, however they are
nested.  A component that answers for each point gives two points or more, in lists, what it gives
each of them alone.  Where there is anything else among the points, the first such leaf is refused,
unless an earlier pin is refused already. -/
theorem evaluate_points
    {c : Component}
    {earlier : List (Value α δ)}
    (hpin : c.pointsPin? = some earlier.length)
    (later : List (Value α δ)) :
    (∀ v w : Value α δ, v.HoldsPoints → w.HoldsPoints → v.finitePoints = w.finitePoints →
      c.evaluate (earlier ++ v :: later) = c.evaluate (earlier ++ w :: later)) ∧
    (c.answersPoints = true → ∀ v : Value α δ, v.HoldsPoints → 2 ≤ v.finitePoints.length →
      AnswersEach (fun p => c.evaluate (earlier ++ .point p :: later)) v.finitePoints
        (c.evaluate (earlier ++ v :: later))) ∧
    (∀ v : Value α δ, ¬ v.HoldsPoints →
      ∃ (before after : List (Value α δ)) (leaf : Value α δ),
        v.leaves = before ++ leaf :: after ∧
        (∀ u ∈ before, u.IsPointOrNull) ∧ ¬ leaf.IsPointOrNull ∧
        ((∃ failure, c.RefusesEarlier (earlier ++ v :: later) failure ∧
            c.evaluate (earlier ++ v :: later) = .error failure) ∨
          ((∀ failure, ¬ c.RefusesEarlier (earlier ++ v :: later) failure) ∧
            c.evaluate (earlier ++ v :: later) = .error (.mismatch .point leaf.kind)))) := by
  have hself : ∀ v : Value α δ, (earlier ++ v :: later)[earlier.length]? = some v := by simp
  refine ⟨fun v w hv hw hpoints => ?_, fun hanswers v hv htwo => ?_, fun v hv => ?_⟩
  · refine evaluate_congr_points hpin ?_ fun i hi => getElem?_around_of_ne hi v w later
    rw [hself, hself, Pin.points_of_holdsPoints hv, Pin.points_of_holdsPoints hw, hpoints]
  · exact answersEach_of_points hanswers hpin (Pin.points_of_holdsPoints hv)
      (fun p hp => Value.isFinite_of_mem_finitePoints hp) htwo later
  · obtain ⟨before, after, leaf, hleaves, hbefore, hleaf⟩ := Pin.exists_first_other hv
    refine ⟨before, after, leaf, hleaves, hbefore, hleaf, evaluate_of_points_refused hpin ?_⟩
    rw [hself, Pin.points_of_first_other hleaves hbefore hleaf]

/-- Two points in nested lists are evaluated one by one, like the list of them, and a number among
points is refused. -/
theorem evaluate_points_nested :
    evaluateField.pointsPin? = some 1 ∧
    evaluateField.evaluate
        ([.field .empty,
          .list [.null, .list [.point Point.origin], .list [], .point ⟨1, 0, 0⟩]] :
            List (Value ℝ Moment)) =
      evaluateField.evaluate [.field .empty, .points [Point.origin, ⟨1, 0, 0⟩]] ∧
    AnswersEach
      (fun p => evaluateField.evaluate ([.field .empty, .point p] : List (Value ℝ Moment)))
      [Point.origin, ⟨1, 0, 0⟩]
      (evaluateField.evaluate [.field .empty, .points [Point.origin, ⟨1, 0, 0⟩]]) ∧
    evaluateField.evaluate
        ([.field .empty, .list [.point Point.origin, .number 1]] : List (Value ℝ Moment)) =
      .error (.mismatch .point .number) := by
  have hpin : evaluateField.pointsPin? = some [(.field .empty : Value ℝ Moment)].length := rfl
  obtain ⟨hsame, heach, hrefused⟩ := evaluate_points hpin []
  have hflat : (.points [Point.origin, ⟨1, 0, 0⟩] : Value ℝ Moment).HoldsPoints := by
    simp [Value.HoldsPoints, Value.points, Value.leaves, Value.leavesOf, Value.IsPointOrNull]
  refine ⟨rfl, hsame _ _ ?_ hflat ?_, heach rfl _ hflat (le_of_eq rfl), ?_⟩
  · simp [Value.HoldsPoints, Value.leaves, Value.leavesOf, Value.IsPointOrNull]
  · rfl
  · have hleaves : (.list [.point Point.origin, .number 1] : Value ℝ Moment).leaves =
        [.point Point.origin, .number 1] := by
      simp [Value.leaves, Value.leavesOf]
    have hnumber : ¬ (.list [.point Point.origin, .number 1] : Value ℝ Moment).HoldsPoints := by
      simp [Value.HoldsPoints, hleaves, Value.IsPointOrNull]
    obtain ⟨before, after, leaf, hsplit, -, hleaf, hresult⟩ := hrefused _ hnumber
    have hmem : leaf ∈ ([.point Point.origin, .number 1] : List (Value ℝ Moment)) := by
      rw [← hleaves, hsplit]
      simp
    -- the point is read, so the number is the leaf that is refused
    have hleaf_eq : leaf = .number 1 := by
      rcases List.mem_pair.mp hmem with rfl | rfl
      · exact absurd (Or.inr ⟨_, rfl⟩) hleaf
      · rfl
    subst hleaf_eq
    rcases hresult with ⟨failure, ⟨-, hearlier⟩, -⟩ | ⟨-, hresult⟩
    · cases hearlier
    · exact hresult

end Component

end FieldGeometry
