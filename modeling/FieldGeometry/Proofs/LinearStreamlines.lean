import FieldGeometry.Proofs.StreamlineSteps
import FieldGeometry.Proofs.Tensors
import Mathlib.Analysis.Calculus.Taylor
import Mathlib.Analysis.SpecialFunctions.Exponential
import Mathlib.Topology.Algebra.Module.FiniteDimension

/-!
# Streamlines of linear directions

Where the direction depends linearly on the position, the curves that follow it exactly solve a
linear differential equation (`IsFlow`).  The derivatives of such a curve are the powers of the
linear map (`IsFlow.iteratedDeriv`), so its Taylor polynomials are polynomials in the map.

A step of the integrator applies the map to its own samples, and is made unless it stalls
(`step?_linear_eq_some_iff`).  The four samples of the fourth order give the Taylor polynomial of
degree four of the exact curve, whatever the map.

The second order takes its second sample half a step on and then the plain mean of both, so of the
term of degree two it gives one half only.  It agrees with the exact curve to the first degree, and
to the second where the square of the map vanishes (`trace_midpoint_linear`).
-/

namespace FieldGeometry

namespace Vec

/-- Vectors are columns of three numbers. -/
def coordsEquiv : Vec ℝ ≃ₗ[ℝ] (Fin 3 → ℝ) where
  toFun := coords
  invFun := ofCoords
  map_add' v w := by
    ext i
    fin_cases i <;> rfl
  map_smul' s v := by
    ext i
    fin_cases i <;> exact mul_comm _ _
  left_inv := ofCoords_coords
  right_inv := coords_ofCoords

end Vec

namespace Streamline

/-- A curve that moves with the velocity that a linear map gives at its position, in every
coordinate. -/
def IsFlow (A : Module.End ℝ (Vec ℝ)) (γ : ℝ → Vec ℝ) : Prop :=
  ∀ (ℓ : Vec ℝ →ₗ[ℝ] ℝ) (t : ℝ), HasDerivAt (fun s => ℓ (γ s)) (ℓ (A (γ t))) t

section Flows

variable {A : Module.End ℝ (Vec ℝ)} {γ : ℝ → Vec ℝ}

/-- The derivatives of a flow are the powers of its map. -/
theorem IsFlow.iteratedDeriv_eq
    (hγ : IsFlow A γ)
    (ℓ : Vec ℝ →ₗ[ℝ] ℝ)
    (n : ℕ) :
    iteratedDeriv n (fun t => ℓ (γ t)) = fun t => ℓ ((A ^ n) (γ t)) := by
  induction n with
  | zero =>
      rfl
  | succ n ih =>
      funext t
      rw [iteratedDeriv_succ, ih, pow_succ]
      exact (hγ (ℓ ∘ₗ A ^ n) t).deriv

/-- The Taylor polynomials of a flow are partial sums of the exponential series of its map. -/
theorem IsFlow.taylor_eq_sum
    (hγ : IsFlow A γ)
    (ℓ : Vec ℝ →ₗ[ℝ] ℝ)
    (n : ℕ)
    (h : ℝ) :
    taylorWithinEval (fun t => ℓ (γ t)) n Set.univ 0 h =
      ∑ k ∈ Finset.range (n + 1), h ^ k / k.factorial * ℓ ((A ^ k) (γ 0)) := by
  rw [taylor_within_apply]
  refine Finset.sum_congr rfl fun k _ => ?_
  rw [iteratedDerivWithin_univ, hγ.iteratedDeriv_eq, sub_zero, smul_eq_mul]
  ring

/-- The Taylor polynomial of degree two of a flow. -/
theorem IsFlow.taylor_two
    (hγ : IsFlow A γ)
    (ℓ : Vec ℝ →ₗ[ℝ] ℝ)
    (h : ℝ) :
    taylorWithinEval (fun t => ℓ (γ t)) 2 Set.univ 0 h =
      ℓ (γ 0 + h • A (γ 0) + (h ^ 2 / 2) • (A ^ 2) (γ 0)) := by
  simp only [hγ.taylor_eq_sum, Finset.sum_range_succ, Finset.sum_range_zero, Nat.factorial,
    map_add, map_smul, smul_eq_mul, pow_zero, pow_one, Module.End.one_apply]
  norm_num

/-- The Taylor polynomial of degree four of a flow. -/
theorem IsFlow.taylor_four
    (hγ : IsFlow A γ)
    (ℓ : Vec ℝ →ₗ[ℝ] ℝ)
    (h : ℝ) :
    taylorWithinEval (fun t => ℓ (γ t)) 4 Set.univ 0 h =
      ℓ (γ 0 + h • A (γ 0) + (h ^ 2 / 2) • (A ^ 2) (γ 0) + (h ^ 3 / 6) • (A ^ 3) (γ 0) +
        (h ^ 4 / 24) • (A ^ 4) (γ 0)) := by
  simp only [hγ.taylor_eq_sum, Finset.sum_range_succ, Finset.sum_range_zero, Nat.factorial,
    map_add, map_smul, smul_eq_mul, pow_zero, pow_one, Module.End.one_apply]
  norm_num

/-- Through every point there is a flow. -/
theorem exists_isFlow
    (A : Module.End ℝ (Vec ℝ))
    (v : Vec ℝ) :
    ∃ γ, IsFlow A γ ∧ γ 0 = v := by
  let e := Vec.coordsEquiv
  let B : (Fin 3 → ℝ) →L[ℝ] (Fin 3 → ℝ) := LinearMap.toContinuousLinearMap (e.conj A)
  refine ⟨fun t => e.symm (NormedSpace.exp (t • B) (e v)), fun ℓ t => ?_, ?_⟩
  · let L : (Fin 3 → ℝ) →L[ℝ] ℝ := LinearMap.toContinuousLinearMap (ℓ ∘ₗ e.symm.toLinearMap)
    have hexp := (hasDerivAt_exp_smul_const' B t).clm_apply (hasDerivAt_const t (e v))
    have hcoord := L.hasFDerivAt.comp_hasDerivAt t hexp
    refine hcoord.congr_deriv ?_
    have hB : ∀ c, B c = e (A (e.symm c)) := fun c => LinearEquiv.conj_apply_apply e A c
    have hL : ∀ c, L c = ℓ (e.symm c) := fun _ => rfl
    rw [map_zero, add_zero, mul_apply_eq_comp, hB, hL, e.symm_apply_apply]
  · show e.symm (NormedSpace.exp ((0 : ℝ) • B) (e v)) = v
    rw [zero_smul, NormedSpace.exp_zero, one_apply_eq_self, e.symm_apply_apply]

end Flows

section Steps

variable (A : Module.End ℝ (Vec ℝ)) (h : ℝ) (p : Point ℝ)

/-- The direction that a linear map gives at each point. -/
noncomputable def linearDirection (p : Point ℝ) : Option (Vec ℝ) :=
  some (A p.toVec)

/-- A linear direction exists everywhere, so a step is made wherever it leads far enough. -/
theorem step?_linear_eq_some_iff
    {A : Module.End ℝ (Vec ℝ)}
    {h : ℝ}
    {order : Order}
    {p q : Point ℝ} :
    step? (linearDirection A) h order p = some q ↔
      q = target (linearDirection A) h order p (A p.toVec) ∧ softening ≤ (q - p).length := by
  rw [step?_eq_some_iff]
  constructor
  · rintro ⟨d, hd, hq, hstalls⟩
    obtain rfl : A p.toVec = d := Option.some.inj hd
    exact ⟨hq, not_lt.mp (mt stalls_exact_iff.mpr hstalls)⟩
  · rintro ⟨hq, hfar⟩
    exact ⟨_, rfl, hq, mt stalls_exact_iff.mp (not_lt.mpr hfar)⟩

/-- A sample of a linear direction, a vector away from a point. -/
theorem linearDirection_getD (v k : Vec ℝ) :
    (linearDirection A (p + v)).getD k = A p.toVec + A v := by
  rw [← map_add]
  rfl

/-- The mean direction of the fourth order. -/
theorem slope_rungeKutta4_linear :
    slope (linearDirection A) h p (A p.toVec) .rungeKutta4 =
      A p.toVec + (h / 2) • (A ^ 2) p.toVec + (h ^ 2 / 6) • (A ^ 3) p.toVec +
        (h ^ 3 / 24) • (A ^ 4) p.toVec := by
  simp only [slope, linearDirection_getD, map_add, map_smul, Vec.div_eq_smul, Scalar.half_exact,
    Scalar.two_exact, pow_succ, pow_zero, one_mul, Module.End.mul_apply, Nat.cast_ofNat]
  module

/-- The point that a step of the fourth order leads to. -/
theorem target_rungeKutta4_linear :
    target (linearDirection A) h .rungeKutta4 p (A p.toVec) =
      p + h • A p.toVec + (h ^ 2 / 2) • (A ^ 2) p.toVec + (h ^ 3 / 6) • (A ^ 3) p.toVec +
        (h ^ 4 / 24) • (A ^ 4) p.toVec := by
  simp only [Point.add_vec_add]
  rw [target, slope_rungeKutta4_linear]
  congr 1
  module

/-- The mean direction of the second order. -/
theorem slope_midpoint_linear :
    slope (linearDirection A) h p (A p.toVec) .midpoint =
      A p.toVec + (h / 4) • (A ^ 2) p.toVec := by
  simp only [slope, linearDirection_getD, map_smul, Scalar.half_exact, pow_succ, pow_zero, one_mul,
    Module.End.mul_apply]
  module

/-- The point that a step of the second order leads to. -/
theorem target_midpoint_linear :
    target (linearDirection A) h .midpoint p (A p.toVec) =
      p + h • A p.toVec + (h ^ 2 / 4) • (A ^ 2) p.toVec := by
  rw [target, slope_midpoint_linear, Point.add_vec_add]
  congr 1
  module

end Steps

/-- **The fourth order.**  Along a linear direction a step of the fourth order adds the first four
terms of the exponential series of the map, and is made wherever that leads at least `softening`
far.  So each step of a streamline leads to the Taylor polynomial of degree four of the flow through
its start, in every coordinate, and there is such a flow.  From the last point of a streamline that
ends early there is no step. -/
theorem trace_rungeKutta4_linear
    (A : Module.End ℝ (Vec ℝ))
    (seed : Point ℝ)
    (steps : ℕ)
    (h : ℝ) :
    (∀ p q : Point ℝ, step? (linearDirection A) h .rungeKutta4 p = some q ↔
      q = p + h • A p.toVec + (h ^ 2 / 2) • (A ^ 2) p.toVec + (h ^ 3 / 6) • (A ^ 3) p.toVec +
          (h ^ 4 / 24) • (A ^ 4) p.toVec ∧
        softening ≤ (q - p).length) ∧
    ((trace (linearDirection A) seed ⟨steps, h, .rungeKutta4⟩).IsChain fun (p q : Point ℝ) =>
      q = p + h • A p.toVec + (h ^ 2 / 2) • (A ^ 2) p.toVec + (h ^ 3 / 6) • (A ^ 3) p.toVec +
        (h ^ 4 / 24) • (A ^ 4) p.toVec ∧
      (∃ γ, IsFlow A γ ∧ γ 0 = p.toVec) ∧
      ∀ γ, IsFlow A γ → γ 0 = p.toVec → ∀ ℓ : Vec ℝ →ₗ[ℝ] ℝ,
        ℓ q.toVec = taylorWithinEval (fun t => ℓ (γ t)) 4 Set.univ 0 h) ∧
    ∃ last, (trace (linearDirection A) seed ⟨steps, h, .rungeKutta4⟩).getLast? = some last ∧
      ((trace (linearDirection A) seed ⟨steps, h, .rungeKutta4⟩).length ≤ steps →
        step? (linearDirection A) h .rungeKutta4 last = none) := by
  refine ⟨fun p q => ?_, ?_, ?_⟩
  · rw [step?_linear_eq_some_iff, target_rungeKutta4_linear]
  · refine (trace_isChain_exact (linearDirection A) seed ⟨steps, h, .rungeKutta4⟩).imp
      fun p q hstep => ?_
    rw [step?_linear_eq_some_iff, target_rungeKutta4_linear] at hstep
    obtain ⟨hq, -⟩ := hstep
    refine ⟨hq, exists_isFlow A p.toVec, fun γ hγ hstart ℓ => ?_⟩
    rw [hγ.taylor_four, hstart, hq]
    rfl
  · exact exists_last_trace_exact (linearDirection A) seed ⟨steps, h, .rungeKutta4⟩

/-- Where the direction at a point is its own position, a step of one from a distance of one leads
to the first five terms of the series of the exponential of one. -/
theorem trace_rungeKutta4_identity :
    step? (linearDirection 1) 1 .rungeKutta4 ⟨1, 0, 0⟩ = some ⟨65 / 24, 0, 0⟩ ∧
    trace (linearDirection 1) ⟨1, 0, 0⟩ ⟨1, 1, .rungeKutta4⟩ = [⟨1, 0, 0⟩, ⟨65 / 24, 0, 0⟩] := by
  have hstep : step? (linearDirection 1) 1 .rungeKutta4 ⟨1, 0, 0⟩ = some ⟨65 / 24, 0, 0⟩ := by
    refine ((trace_rungeKutta4_linear 1 ⟨1, 0, 0⟩ 1 1).1 _ _).mpr ⟨?_, ?_⟩
    · ext <;> norm_num [Point.add_vec_eq, Point.toVec]
    · rw [Vec.length_eq, softening_exact]
      apply Real.le_sqrt_of_sq_le
      norm_num [Point.sub_eq_toVec_sub, Point.toVec, Vec.dot_eq]
  refine ⟨hstep, ?_⟩
  rw [trace, Options.stride_exact, follow, hstep]
  rfl

/-- **The second order.**  Along a linear direction a step of the second order adds the first term
of the exponential series of the map and one half of the second, and is made wherever that leads at
least `softening` far.  It leads to the sum with the whole second term exactly where the square of
the map vanishes at its start.  Everywhere it falls short of the Taylor polynomial of degree two of
the flow through its start by the other half of that term, in every coordinate, and there is such a
flow.  From the last point of a streamline that ends early there is no step. -/
theorem trace_midpoint_linear
    (A : Module.End ℝ (Vec ℝ))
    (seed : Point ℝ)
    (steps : ℕ)
    (h : ℝ) :
    (∀ p q : Point ℝ, step? (linearDirection A) h .midpoint p = some q ↔
      q = p + h • A p.toVec + (h ^ 2 / 4) • (A ^ 2) p.toVec ∧ softening ≤ (q - p).length) ∧
    ((trace (linearDirection A) seed ⟨steps, h, .midpoint⟩).IsChain fun (p q : Point ℝ) =>
      q = p + h • A p.toVec + (h ^ 2 / 4) • (A ^ 2) p.toVec ∧
      (q = p + h • A p.toVec + (h ^ 2 / 2) • (A ^ 2) p.toVec ↔ (A ^ 2) p.toVec = 0) ∧
      (∃ γ, IsFlow A γ ∧ γ 0 = p.toVec) ∧
      ∀ γ, IsFlow A γ → γ 0 = p.toVec → ∀ ℓ : Vec ℝ →ₗ[ℝ] ℝ,
        taylorWithinEval (fun t => ℓ (γ t)) 2 Set.univ 0 h - ℓ q.toVec =
          h ^ 2 / 4 * ℓ ((A ^ 2) p.toVec)) ∧
    ∃ last, (trace (linearDirection A) seed ⟨steps, h, .midpoint⟩).getLast? = some last ∧
      ((trace (linearDirection A) seed ⟨steps, h, .midpoint⟩).length ≤ steps →
        step? (linearDirection A) h .midpoint last = none) := by
  refine ⟨fun p q => ?_, ?_, ?_⟩
  · rw [step?_linear_eq_some_iff, target_midpoint_linear]
  · refine (trace_isChain_exact (linearDirection A) seed ⟨steps, h, .midpoint⟩).imp
      fun p q hstep => ?_
    have hh : h ≠ 0 := ne_zero_of_step? hstep
    rw [step?_linear_eq_some_iff, target_midpoint_linear] at hstep
    obtain ⟨hq, -⟩ := hstep
    refine ⟨hq, ?_, exists_isFlow A p.toVec, fun γ hγ hstart ℓ => ?_⟩
    · have hhalves : (h ^ 2 / 2) • (A ^ 2) p.toVec =
          (h ^ 2 / 4) • (A ^ 2) p.toVec + (h ^ 2 / 4) • (A ^ 2) p.toVec := by
        module
      have hfactor : h ^ 2 / 4 ≠ 0 := div_ne_zero (pow_ne_zero 2 hh) four_ne_zero
      rw [hq, Point.add_vec_inj, hhalves, left_eq_add, smul_eq_zero_iff_right hfactor]
    · have hcoords : q.toVec = p.toVec + h • A p.toVec + (h ^ 2 / 4) • (A ^ 2) p.toVec := by
        rw [hq]
        rfl
      rw [hγ.taylor_two, hstart, hcoords]
      simp only [map_add, map_smul, smul_eq_mul]
      ring
  · exact exists_last_trace_exact (linearDirection A) seed ⟨steps, h, .midpoint⟩

/-- Where the direction at a point is its own position, a step of one from a distance of one leads
to nine quarters, and not to the five halves of the series of degree two. -/
theorem trace_midpoint_falls_short :
    trace (linearDirection 1) ⟨1, 0, 0⟩ ⟨1, 1, .midpoint⟩ = [⟨1, 0, 0⟩, ⟨9 / 4, 0, 0⟩] ∧
    ¬ (trace (linearDirection 1) ⟨1, 0, 0⟩ ⟨1, 1, .midpoint⟩).IsChain fun (p q : Point ℝ) =>
      q = p + (1 : ℝ) • (1 : Module.End ℝ (Vec ℝ)) p.toVec +
        ((1 : ℝ) ^ 2 / 2) • ((1 : Module.End ℝ (Vec ℝ)) ^ 2) p.toVec := by
  have htarget : target (linearDirection 1) 1 .midpoint ⟨1, 0, 0⟩ ⟨1, 0, 0⟩ = ⟨9 / 4, 0, 0⟩ := by
    refine (target_midpoint_linear 1 1 ⟨1, 0, 0⟩).trans ?_
    ext <;> norm_num [Point.add_vec_eq, Point.toVec]
  have hmoves : ¬ stalls (⟨1, 0, 0⟩ : Point ℝ) ⟨9 / 4, 0, 0⟩ := by
    rw [stalls_iff, softening_exact]
    norm_num [Point.distanceSq, Point.sub_eq_toVec_sub, Point.toVec, Vec.dot_eq]
  have hstep : step? (linearDirection 1) 1 .midpoint ⟨1, 0, 0⟩ = some ⟨9 / 4, 0, 0⟩ :=
    step?_eq_some_iff.mpr ⟨⟨1, 0, 0⟩, rfl, htarget.symm, hmoves⟩
  have htrace : trace (linearDirection 1) ⟨1, 0, 0⟩ ⟨1, 1, .midpoint⟩ =
      [⟨1, 0, 0⟩, ⟨9 / 4, 0, 0⟩] := by
    rw [trace, Options.stride_exact, follow, hstep]
    rfl
  refine ⟨htrace, fun hchain => ?_⟩
  rw [htrace, List.isChain_pair] at hchain
  have hx := congrArg Point.x hchain
  norm_num [Point.add_vec_eq, Point.toVec] at hx

end Streamline

end FieldGeometry
