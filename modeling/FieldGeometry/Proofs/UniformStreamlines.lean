import FieldGeometry.Proofs.StreamlineSteps

/-!
# Streamlines of constant directions

Where the direction is the same everywhere all samples of a step agree, and so does every mean of
them: a step of any order leads along the direction itself (`slope_constant`).  A streamline then
stays at its seed, if such a step is too short to count, or makes all the steps that it was given,
each by the same vector (`trace_constant`).

A field of uniform sources that act everywhere has the sum of their vectors as its vector at every
point, and so a constant direction, or none.
-/

namespace FieldGeometry

namespace Streamline

section Constant

variable (d : Vec ℝ) (h : ℝ) (order : Order) (p seed : Point ℝ)

/-- Directions that agree have themselves as their mean. -/
theorem slope_constant : slope (fun _ => some d) h p d order = d := by
  cases order with
  | euler =>
      rfl
  | midpoint =>
      simp only [slope, Option.getD_some, Scalar.half_exact]
      module
  | threeSample =>
      simp only [slope, Option.getD_some, Vec.div_eq_smul, Nat.cast_ofNat]
      module
  | rungeKutta4 =>
      simp only [slope, Option.getD_some, Vec.div_eq_smul, Scalar.two_exact, Nat.cast_ofNat]
      module

/-- A step leads along the direction, unless that is too short to count. -/
theorem step?_constant :
    step? (fun _ => some d) h order p =
      if |h| * d.length < softening then none else some (p + h • d) := by
  have htarget : target (fun _ => some d) h order p d = p + h • d := by
    rw [target, slope_constant]
  have hstalls : stalls p (p + h • d) = true ↔ |h| * d.length < softening := by
    rw [stalls_exact_iff, Point.add_vec_sub, Vec.length_smul]
  rw [step?_of_some rfl, htarget]
  simp only [hstalls]

/-- Steps by the same vector lead to its multiples. -/
theorem follow_add_vec
    (v : Vec ℝ)
    (n : ℕ)
    (p : Point ℝ) :
    follow (fun q => some (q + v)) n p =
      (List.range n).map fun i : ℕ => p + ((i : ℝ) + 1) • v := by
  induction n generalizing p with
  | zero =>
      rfl
  | succ n ih =>
      have hfirst : p + v = p + (((0 : ℕ) : ℝ) + 1) • v := by
        rw [Nat.cast_zero, zero_add, one_smul]
      have hlater : ∀ i : ℕ, p + v + ((i : ℝ) + 1) • v = p + (((i + 1 : ℕ) : ℝ) + 1) • v := by
        intro i
        rw [Point.add_vec_add, Nat.cast_succ]
        congr 1
        module
      rw [List.range_succ_eq_map, List.map_cons, List.map_map, ← hfirst]
      show (p + v) :: follow _ n (p + v) = _
      rw [ih]
      simp only [hlater]
      rfl

/-- A streamline of a constant direction. -/
theorem trace_constant (options : Options ℝ) :
    trace (fun _ => some d) seed options =
      if |options.stepSize| * d.length < softening then [seed]
      else (List.range (options.steps + 1)).map fun i : ℕ =>
        seed + ((i : ℝ) * options.stepSize) • d := by
  have hseed : seed + (((0 : ℕ) : ℝ) * options.stepSize) • d = seed := by
    rw [Nat.cast_zero, zero_mul, zero_smul, Point.add_zero_vec]
  rw [trace, Options.stride_exact]
  split_ifs with hshort
  · rw [follow_of_none]
    rw [step?_constant, if_pos hshort]
  · have hstep : step? (fun _ => some d) options.stepSize options.order =
        fun p : Point ℝ => some (p + options.stepSize • d) := by
      funext p
      rw [step?_constant, if_neg hshort]
    rw [hstep, follow_add_vec, List.range_succ_eq_map, List.map_cons, List.map_map, hseed]
    simp only [smul_smul, Function.comp_def, Nat.cast_succ]

/-- A streamline without a direction. -/
theorem trace_none
    {α : Type}
    [Scalar α]
    (seed : Point α)
    (options : Options α) :
    trace (fun _ => none) seed options = [seed] := by
  rw [trace, follow_of_none]
  exact step?_of_none rfl

end Constant

end Streamline

/-- A uniform source that acts everywhere, with its vector. -/
def Source.IsUniform (s : Source ℝ) (v : Vec ℝ) : Prop :=
  s.model = .uniform v ∧ s.region = none

theorem Source.sample?_of_isUniform
    {s : Source ℝ}
    {v : Vec ℝ}
    (h : s.IsUniform v)
    (p : Point ℝ) :
    s.sample? p = some ⟨v, v.length, none⟩ := by
  obtain ⟨hmodel, hregion⟩ := h
  rw [sample?_exact, actsAt, hregion, hmodel]
  rfl

namespace Field

/-- All sources of a field are uniform and act everywhere, with the given vectors. -/
def IsUniform (f : Field ℝ) (vs : List (Vec ℝ)) : Prop :=
  List.Forall₂ Source.IsUniform f.sources vs

/-- The vectors of uniform sources are what is summed at every point. -/
theorem vectors_of_isUniform
    {sources : List (Source ℝ)}
    {vs : List (Vec ℝ)}
    (h : List.Forall₂ Source.IsUniform sources vs)
    (p : Point ℝ) :
    (sources.filterMap (·.sample? p)).map (·.vector) = vs := by
  induction h with
  | nil =>
      rfl
  | cons hs _ ih =>
      rw [List.filterMap_cons, Source.sample?_of_isUniform hs, List.map_cons, ih]

section Uniform

variable {f : Field ℝ} {vs : List (Vec ℝ)} (hf : f.IsUniform vs)
include hf

theorem evaluate_vector_of_isUniform (p : Point ℝ) : (f.evaluate p).vector = Vec.sum vs := by
  rw [evaluate_vector, vectors_of_isUniform hf, Vec.sum_exact]

theorem evaluate_magnitude_of_isUniform (p : Point ℝ) :
    (f.evaluate p).magnitude = (Vec.sum vs).length :=
  congrArg Vec.length (evaluate_vector_of_isUniform hf p)

/-- Where the sum of the vectors is negligible there is no direction. -/
theorem directionAt?_of_isUniform_of_le
    (h : (Vec.sum vs).length ≤ softening) :
    f.directionAt? = fun _ => none := by
  funext p
  rw [directionAt?, evaluate_magnitude_of_isUniform hf, decide_eq_true h, Bool.or_true]
  rfl

/-- Elsewhere the direction is that of the sum, everywhere with the same speed. -/
theorem directionAt?_of_isUniform_of_lt
    (h : softening < (Vec.sum vs).length) :
    f.directionAt? = fun _ =>
      some (min (max (Vec.sum vs).length (1 / 10)) 5 • (Vec.sum vs / (Vec.sum vs).length)) := by
  funext p
  have hmagnitude := evaluate_magnitude_of_isUniform hf p
  rw [directionAt?_of_lt (by rwa [hmagnitude]), speedAt_eq, hmagnitude,
    evaluate_vector_of_isUniform hf, Vec.div_eq_smul, smul_smul, div_eq_mul_inv]

end Uniform

/-- **Streamlines of uniform fields.**  Where all sources are uniform and act everywhere, only the
sum of their vectors counts.  A streamline stays at its seed if the sum is negligible, or if the
speed times the parameter of a step is; otherwise it makes all its steps, each along the sum at that
speed.  This does not depend on the order of the integrator. -/
theorem streamline_uniform
    {f : Field ℝ}
    {vs : List (Vec ℝ)}
    (hf : f.IsUniform vs)
    (seed : Point ℝ)
    (steps : ℕ)
    (h : ℝ) :
    ∃ (V : Vec ℝ) (speed : ℝ),
      V = Vec.sum vs ∧
      speed = min (max V.length (1 / 10)) 5 ∧
      ∀ order : Streamline.Order,
        f.streamline seed ⟨steps, h, order⟩ =
          if V.length ≤ softening ∨ |h| * speed < softening then [seed]
          else (List.range (steps + 1)).map fun i : ℕ =>
            seed + ((i : ℝ) * h * speed) • (V / V.length) := by
  refine ⟨_, _, rfl, rfl, fun order => ?_⟩
  rw [streamline]
  rcases le_or_gt (Vec.sum vs).length softening with hshort | hlong
  · rw [directionAt?_of_isUniform_of_le hf hshort, if_pos (Or.inl hshort)]
    exact Streamline.trace_none seed _
  · have hunit : (Vec.sum vs / (Vec.sum vs).length).length = 1 :=
      Vec.length_of_unit? (Vec.unit?_of_lt hlong)
    have hspeed : 0 ≤ min (max (Vec.sum vs).length (1 / 10)) 5 :=
      le_min (le_trans (Vec.length_nonneg _) (le_max_left _ _)) (by norm_num)
    rw [directionAt?_of_isUniform_of_lt hf hlong, Streamline.trace_constant, Vec.length_smul, hunit,
      mul_one, abs_of_nonneg hspeed]
    simp only [not_le.mpr hlong, false_or, smul_smul]

/-- Two winds of which the sum is twice as strong as the greatest speed: three points in steps of
five along it. -/
theorem streamline_uniform_winds :
    (⟨[.ofModel (.uniform ⟨6, 0, 0⟩), .ofModel (.uniform ⟨0, 8, 0⟩)], [], .empty⟩ :
      Field ℝ).IsUniform [⟨6, 0, 0⟩, ⟨0, 8, 0⟩] ∧
    ∀ order : Streamline.Order,
      (⟨[.ofModel (.uniform ⟨6, 0, 0⟩), .ofModel (.uniform ⟨0, 8, 0⟩)], [], .empty⟩ :
        Field ℝ).streamline ⟨0, 0, 1⟩ ⟨2, 1, order⟩ = [⟨0, 0, 1⟩, ⟨3, 4, 1⟩, ⟨6, 8, 1⟩] := by
  have huniform : (⟨[.ofModel (.uniform ⟨6, 0, 0⟩), .ofModel (.uniform ⟨0, 8, 0⟩)], [], .empty⟩ :
      Field ℝ).IsUniform [⟨6, 0, 0⟩, ⟨0, 8, 0⟩] :=
    .cons ⟨rfl, rfl⟩ (.cons ⟨rfl, rfl⟩ .nil)
  obtain ⟨V, speed, hV, hspeed, hline⟩ := streamline_uniform huniform ⟨0, 0, 1⟩ 2 1
  have hsum : V = ⟨6, 8, 0⟩ := by
    rw [hV, Vec.sum_exact]
    ext <;> norm_num
  have hlength : V.length = 10 := by
    rw [hsum, Vec.length_eq, Real.sqrt_eq_iff_mul_self_eq_of_pos] <;> norm_num [Vec.dot_eq]
  have hfive : speed = 5 := by
    rw [hspeed, hlength]
    norm_num
  refine ⟨huniform, fun order => ?_⟩
  rw [hline, if_neg (by rw [hlength, hfive, softening_exact]; norm_num), hlength, hfive, hsum]
  simp only [List.range_succ_eq_map, List.range_zero, List.map_cons, List.map_nil, Vec.div_eq_smul]
  refine congrArg₂ List.cons ?_ (congrArg₂ List.cons ?_ (congrArg₂ List.cons ?_ rfl)) <;>
    ext <;> norm_num [Point.add_vec_eq]

end Field

end FieldGeometry
