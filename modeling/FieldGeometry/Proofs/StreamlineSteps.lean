import FieldGeometry.Proofs.EvaluationBounds
import FieldGeometry.Proofs.Points
import FieldGeometry.Proofs.RegionSpans
import FieldGeometry.Proofs.StreamlineRuns

/-!
# The steps of a streamline

Each point of a streamline is reached from the one before by a step of the integrator, and each of
these steps counts: it is not shorter than `softening`.  A streamline with fewer steps than it was
given has come to a point without a direction, or from which the step would be shorter.  There is no
other way to end (`trace_isChain`, `exists_last_trace`).

The direction of a field exists where its magnitude exceeds `softening`, and there some source acts.
So a streamline of a field may leave the regions of all sources only by its last step.
-/

namespace FieldGeometry

/-- Every member of a chain but the last is related to another. -/
theorem exists_of_mem_dropLast
    {β : Type}
    {R : β → β → Prop}
    {l : List β}
    {a : β}
    (h : l.IsChain R)
    (ha : a ∈ l.dropLast) :
    ∃ b, R a b := by
  induction h with
  | nil =>
      cases ha
  | singleton b =>
      cases ha
  | cons_cons hbc hrest ih =>
      rw [List.dropLast_cons_cons] at ha
      rcases List.mem_cons.mp ha with rfl | ha
      · exact ⟨_, hbc⟩
      · exact ih ha

namespace Streamline

section Follow

variable {α : Type} (step? : Point α → Option (Point α)) (n : ℕ) (p : Point α)

theorem length_follow_le : (follow step? n p).length ≤ n := by
  induction n generalizing p with
  | zero =>
      exact Nat.le_refl 0
  | succ n ih =>
      rw [follow]
      cases step? p with
      | none =>
          exact Nat.zero_le (n + 1)
      | some q =>
          exact Nat.succ_le_succ (ih q)

/-- Neighbouring points of a run are a step apart. -/
theorem follow_isChain : (p :: follow step? n p).IsChain fun a b => step? a = some b := by
  induction n generalizing p with
  | zero =>
      exact List.isChain_singleton p
  | succ n ih =>
      rw [follow]
      cases hstep : step? p with
      | none =>
          exact List.isChain_singleton p
      | some q =>
          exact List.isChain_cons_cons.mpr ⟨hstep, ih q⟩

end Follow

section Steps

variable {α : Type} [Scalar α] (direction : Point α → Option (Vec α)) (h : α) (order : Order)
  (p : Point α)

/-- The point that a step from `p` leads to, where the direction there is `d`. -/
def target (d : Vec α) : Point α :=
  p + h • slope direction h p d order

variable {direction h order p} {q : Point α} {d : Vec α}

theorem stalls_iff : stalls p q = true ↔ q.distanceSq p < softening * softening :=
  decide_eq_true_iff

theorem step?_of_none
    (hd : direction p = none) :
    step? direction h order p = none := by
  rw [step?, advance?, hd]
  rfl

theorem step?_of_some
    (hd : direction p = some d) :
    step? direction h order p =
      if stalls p (target direction h order p d) then none
      else some (target direction h order p d) := by
  rw [step?, advance?, hd]
  rfl

/-- A step is made where there is a direction and it leads far enough. -/
theorem step?_eq_some_iff :
    step? direction h order p = some q ↔
      ∃ d, direction p = some d ∧ q = target direction h order p d ∧ ¬stalls p q := by
  cases hd : direction p with
  | none =>
      simp [step?_of_none hd]
  | some d =>
      rw [step?_of_some hd]
      constructor
      · intro hstep
        split_ifs at hstep with hstalls
        cases hstep
        exact ⟨d, rfl, rfl, hstalls⟩
      · rintro ⟨_, ⟨⟩, rfl, hstalls⟩
        exact if_neg hstalls

/-- A streamline ends where there is no direction, or where the step would not lead far enough. -/
theorem step?_eq_none_iff :
    step? direction h order p = none ↔
      direction p = none ∨
        ∃ d, direction p = some d ∧ stalls p (target direction h order p d) := by
  cases hd : direction p with
  | none =>
      simp [step?_of_none hd]
  | some d =>
      simp [step?_of_some hd]

end Steps

section Traces

variable {α : Type} [Scalar α] (direction : Point α → Option (Vec α)) (seed : Point α)
  (options : Options α)

theorem trace_isChain :
    (trace direction seed options).IsChain
      fun p q => step? direction options.stride options.order p = some q :=
  follow_isChain _ _ seed

/-- From the last point of a streamline that ends early no step leads on. -/
theorem exists_last_trace :
    ∃ last, (trace direction seed options).getLast? = some last ∧
      ((trace direction seed options).length ≤ options.steps →
        step? direction options.stride options.order last = none) := by
  refine ⟨_, ?_, fun hlength => step?_last_eq_none _ (Nat.lt_of_succ_le hlength)⟩
  rw [trace, List.getLast?_cons, List.getLastD_eq_getLast?]

end Traces

/-- In exact arithmetic every step size is finite. -/
theorem Options.stride_exact (options : Options ℝ) : options.stride = options.stepSize :=
  Scalar.finiteOr_exact options.stepSize _

section Exact

variable (direction : Point ℝ → Option (Vec ℝ)) (seed : Point ℝ) (options : Options ℝ)

theorem trace_isChain_exact :
    (trace direction seed options).IsChain
      fun p q => step? direction options.stepSize options.order p = some q := by
  rw [← options.stride_exact]
  exact trace_isChain direction seed options

theorem exists_last_trace_exact :
    ∃ last, (trace direction seed options).getLast? = some last ∧
      ((trace direction seed options).length ≤ options.steps →
        step? direction options.stepSize options.order last = none) := by
  rw [← options.stride_exact]
  exact exists_last_trace direction seed options

end Exact

/-- In exact arithmetic a step stalls when it is shorter than `softening`. -/
theorem stalls_exact_iff {p q : Point ℝ} : stalls p q = true ↔ (q - p).length < softening := by
  rw [stalls_iff, Vec.length_eq, Real.sqrt_lt' softening_pos, pow_two]
  rfl

/-- A step of no parameter does not move. -/
theorem ne_zero_of_step?
    {direction : Point ℝ → Option (Vec ℝ)}
    {h : ℝ}
    {order : Order}
    {p q : Point ℝ}
    (hstep : step? direction h order p = some q) :
    h ≠ 0 := by
  rintro rfl
  obtain ⟨d, -, rfl, hstalls⟩ := step?_eq_some_iff.mp hstep
  apply hstalls
  rw [stalls_exact_iff, target, zero_smul, Point.add_vec_sub, Vec.length_zero]
  exact softening_pos

end Streamline

namespace Field

open Streamline

section Directions

variable {f : Field ℝ} {p : Point ℝ}

/-- Where no source acts the field vanishes. -/
theorem exists_actsAt (h : (f.evaluate p).vector ≠ 0) : ∃ s ∈ f.sources, s.actsAt p = true := by
  by_contra hnone
  push Not at hnone
  apply h
  have hsamples : f.sources.filterMap (·.sample? p) = [] := by
    rw [List.filterMap_eq_nil_iff]
    intro s hs
    rw [Source.sample?_exact, if_neg (hnone s hs)]
  rw [evaluate_vector, hsamples]
  rfl

/-- The speed of a direction of a field: its magnitude, held between the least and the greatest. -/
noncomputable def speedAt (f : Field ℝ) (p : Point ℝ) : ℝ :=
  Scalar.clampFinite (f.evaluate p).magnitude minSpeed maxSpeed

theorem speedAt_eq (f : Field ℝ) (p : Point ℝ) :
    f.speedAt p = min (max (f.evaluate p).magnitude (1 / 10)) 5 := by
  rw [speedAt, Scalar.clampFinite_exact, minSpeed, Scalar.ratio_exact]
  show min (max _ (((1 : ℕ) : ℝ) / ((10 : ℕ) : ℝ))) ((5 : ℕ) : ℝ) = _
  rw [Nat.cast_one, Nat.cast_ofNat, Nat.cast_ofNat]

theorem directionAt?_of_lt
    (h : softening < (f.evaluate p).magnitude) :
    f.directionAt? p =
      some ((f.speedAt p / (f.evaluate p).magnitude) • (f.evaluate p).vector) := by
  have hunit : (f.evaluate p).direction = (f.evaluate p).magnitude⁻¹ • (f.evaluate p).vector :=
    if_pos h
  rw [directionAt?, Scalar.isNaN_exact, decide_eq_false (not_le.mpr h), hunit, smul_smul,
    ← div_eq_mul_inv]
  rfl

/-- A field has a direction where its magnitude exceeds `softening`. -/
theorem directionAt?_eq_some_iff {d : Vec ℝ} :
    f.directionAt? p = some d ↔
      softening < (f.evaluate p).magnitude ∧
        d = (f.speedAt p / (f.evaluate p).magnitude) • (f.evaluate p).vector := by
  by_cases h : softening < (f.evaluate p).magnitude
  · simp [directionAt?_of_lt h, h, eq_comm]
  · simp [directionAt?, h, not_lt.mp h]

/-- Where a step starts the field is not negligible, and some source acts. -/
theorem acts_of_step?
    {h : ℝ}
    {order : Order}
    {q : Point ℝ}
    (hstep : step? f.directionAt? h order p = some q) :
    softening < (f.evaluate p).magnitude ∧ ∃ s ∈ f.sources, s.actsAt p = true := by
  obtain ⟨d, hd, -⟩ := step?_eq_some_iff.mp hstep
  have hmagnitude := (directionAt?_eq_some_iff.mp hd).1
  refine ⟨hmagnitude, exists_actsAt fun hzero => ?_⟩
  have hlength : (f.evaluate p).magnitude = (f.evaluate p).vector.length := rfl
  rw [hlength, hzero, Vec.length_zero] at hmagnitude
  exact absurd hmagnitude (not_lt.mpr (le_of_lt softening_pos))

theorem streamline_isChain (f : Field ℝ) (seed : Point ℝ) (options : Options ℝ) :
    (f.streamline seed options).IsChain
      fun p q => step? f.directionAt? options.stepSize options.order p = some q :=
  trace_isChain_exact f.directionAt? seed options

/-- Where no source acts a streamline has ended. -/
theorem streamline_last_of_not_actsAt
    {seed : Point ℝ}
    {options : Options ℝ}
    {i : ℕ}
    (hp : (f.streamline seed options)[i]? = some p)
    (hacts : ∀ s ∈ f.sources, s.actsAt p = false) :
    i + 1 = (f.streamline seed options).length := by
  obtain ⟨hi, rfl⟩ := List.getElem?_eq_some_iff.mp hp
  by_contra hlast
  have hnext : i + 1 < (f.streamline seed options).length := lt_of_le_of_ne hi hlast
  have hstep := List.isChain_iff_getElem.mp (f.streamline_isChain seed options) i hnext
  obtain ⟨-, s, hs, hon⟩ := acts_of_step? hstep
  exact Bool.false_ne_true ((hacts s hs).symm.trans hon)

end Directions

end Field

/-- **The steps of a streamline.**  A streamline begins at its seed and has at most the steps it was
given.  Each point but the last has a direction, and the next point is the one that the step leads
to, not less than `softening` away.  A streamline with fewer steps ends at a point without a
direction, or from which the step would be shorter than that.

Where a streamline of a field goes on, the field exceeds `softening` and some source acts.  So only
its last point may lie outside the regions of all sources. -/
theorem Streamline.trace_steps :
    (∀ {α : Type} [Scalar α] (direction : Point α → Option (Vec α)) (seed : Point α)
      (options : Options α),
      ∃ (rest : List (Point α)) (last : Point α),
        trace direction seed options = seed :: rest ∧
        rest.length ≤ options.steps ∧
        (seed :: rest).IsChain (fun p q => ∃ d, direction p = some d ∧
          q = target direction options.stride options.order p d ∧
          ¬q.distanceSq p < softening * softening) ∧
        (seed :: rest).getLast? = some last ∧
        (rest.length < options.steps → direction last = none ∨ ∃ d, direction last = some d ∧
          (target direction options.stride options.order last d).distanceSq last <
            softening * softening)) ∧
    (∀ p q : Point ℝ, q.distanceSq p < softening * softening ↔ (q - p).length < softening) ∧
    (∀ (f : Field ℝ) (seed : Point ℝ) (options : Options ℝ),
      (∀ p ∈ (f.streamline seed options).dropLast,
        softening < (f.evaluate p).magnitude ∧ ∃ s ∈ f.sources, s.actsAt p = true) ∧
      (∀ i p, (f.streamline seed options)[i]? = some p →
        (∀ s ∈ f.sources, s.actsAt p = false) →
          i + 1 = (f.streamline seed options).length)) := by
  refine ⟨?_, fun p q => ?_, fun f seed options => ⟨fun p hp => ?_, fun i p hp hacts => ?_⟩⟩
  · intro α _ direction seed options
    obtain ⟨last, hlast, hend⟩ := exists_last_trace direction seed options
    refine ⟨_, last, rfl, length_follow_le _ _ _, ?_, hlast, fun hshort => ?_⟩
    · refine (trace_isChain direction seed options).imp fun p q hstep => ?_
      simpa only [stalls_iff] using step?_eq_some_iff.mp hstep
    · simpa only [stalls_iff] using step?_eq_none_iff.mp (hend hshort)
  · rw [← stalls_iff, stalls_exact_iff]
  · obtain ⟨q, hstep⟩ := exists_of_mem_dropLast (f.streamline_isChain seed options) hp
    exact Field.acts_of_step? hstep
  · exact Field.streamline_last_of_not_actsAt hp hacts

section Wind

namespace Field

open Streamline

/-- The point in the middle of the unit cube. -/
noncomputable def cubeCentre : Point ℝ :=
  ⟨Scalar.half, Scalar.half, Scalar.half⟩

/-- The point to which the wind carries the middle of the unit cube in a unit of time. -/
noncomputable def besideCube : Point ℝ :=
  cubeCentre + (Vec.basisX : Vec ℝ)

theorem evaluate_cubeCentre : (cubeWind.evaluate cubeCentre).vector = Vec.basisX := by
  have hacts : (Region.world ⟨0, 0, 0⟩ ⟨1, 1, 1⟩).contains cubeCentre = true := by
    have hpos := softening_pos
    rw [Region.contains_world_iff]
    norm_num [AlmostBetween, cubeCentre]
    constructor <;> linarith
  have hsample : cubeWind.sources.filterMap (·.sample? cubeCentre) =
      [⟨Vec.basisX, Vec.basisX.length, none⟩] := by
    show [Source.ofModel _ (some _)].filterMap _ = _
    rw [List.filterMap_cons, Source.sample?_exact, Source.actsAt, Source.ofModel]
    simp only [hacts]
    rfl
  rw [evaluate_vector, hsample]
  exact add_zero _

theorem directionAt?_cubeCentre : cubeWind.directionAt? cubeCentre = some Vec.basisX := by
  have hmagnitude : (cubeWind.evaluate cubeCentre).magnitude = 1 := by
    show (cubeWind.evaluate cubeCentre).vector.length = 1
    rw [evaluate_cubeCentre]
    exact Vec.length_basis.1
  have hspeed : cubeWind.speedAt cubeCentre = 1 := by
    rw [speedAt_eq, hmagnitude]
    norm_num
  rw [directionAt?_eq_some_iff, hspeed, hmagnitude, evaluate_cubeCentre, div_one, one_smul]
  exact ⟨Scalar.tolerance_lt_one, rfl⟩

/-- A step of one unit leads out of the cube. -/
theorem step?_cubeCentre :
    step? cubeWind.directionAt? 1 .euler cubeCentre = some besideCube := by
  have htarget : target cubeWind.directionAt? 1 .euler cubeCentre Vec.basisX = besideCube := by
    rw [target, Streamline.slope, one_smul, besideCube]
  rw [step?_eq_some_iff]
  refine ⟨Vec.basisX, directionAt?_cubeCentre, htarget.symm, ?_⟩
  rw [stalls_exact_iff, besideCube, Point.add_vec_sub, Vec.length_basis.1, not_lt]
  exact le_of_lt Scalar.tolerance_lt_one

/-- The streamline from the middle of the cube ends at its second point, the first outside. -/
theorem trace_steps_cubeWind :
    (cubeWind.streamline cubeCentre ⟨25, 1, .euler⟩)[1]? = some besideCube ∧
    (∀ s ∈ cubeWind.sources, s.actsAt besideCube = false) ∧
    1 + 1 = (cubeWind.streamline cubeCentre ⟨25, 1, .euler⟩).length := by
  have hsecond : (cubeWind.streamline cubeCentre ⟨25, 1, .euler⟩)[1]? = some besideCube := by
    rw [streamline, trace, Options.stride_exact, List.getElem?_cons_succ, follow,
      step?_cubeCentre]
    rfl
  have houtside : ∀ s ∈ cubeWind.sources, s.actsAt besideCube = false := by
    intro s hs
    obtain rfl := List.mem_singleton.mp hs
    show Region.contains _ _ = false
    rw [← Bool.not_eq_true, Region.contains_world_iff]
    rintro ⟨⟨-, hx⟩, -⟩
    have hsmall : (softening : ℝ) = 1 / 1000000000 := Scalar.tolerance_exact
    norm_num [besideCube, cubeCentre, Point.add_vec_eq, hsmall] at hx
  exact ⟨hsecond, houtside, (trace_steps.2.2 _ _ _).2 1 _ hsecond houtside⟩

end Field

end Wind

end FieldGeometry
