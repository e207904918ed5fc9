import FieldGeometry.Proofs.StreamlineSteps
import FieldGeometry.Proofs.UniformStreamlines

/-!
# The speed of a streamline

In exact arithmetic the direction of a field is never longer than five, and never shorter than a
tenth.  A step of any order goes along a mean of such directions, where a missing sample repeats the
one before, so it is no longer than five times its parameter (`length_slope_le`).  The bound adds up
along a streamline.

A step of the first order goes along the direction at its start, so it is not shorter than a tenth
of its parameter either, and it follows the vector of the field there, backwards when the parameter
is negative.
-/

namespace FieldGeometry

namespace Vec

variable {v w : Vec ℝ} {a b : ℝ}

theorem length_add_le_of_le
    (hv : v.length ≤ a)
    (hw : w.length ≤ b) :
    (v + w).length ≤ a + b :=
  le_trans (length_add_le v w) (add_le_add hv hw)

theorem length_smul_le_of_le
    {s : ℝ}
    (hs : 0 ≤ s)
    (hv : v.length ≤ a) :
    (s • v).length ≤ s * a := by
  rw [length_smul, abs_of_nonneg hs]
  exact mul_le_mul_of_nonneg_left hv hs

end Vec

namespace Streamline

section Means

variable {direction : Point ℝ → Option (Vec ℝ)} {c : ℝ}
  (hdirection : ∀ p d, direction p = some d → d.length ≤ c)

include hdirection

/-- A later sample of a step, or the one before in its place. -/
theorem length_sample_le
    (p : Point ℝ)
    {k : Vec ℝ}
    (hk : k.length ≤ c) :
    ((direction p).getD k).length ≤ c := by
  cases hd : direction p with
  | none =>
      exact hk
  | some d =>
      exact hdirection p d hd

/-- A mean of directions is no longer than the directions may be. -/
theorem length_slope_le
    (h : ℝ)
    (p : Point ℝ)
    {k : Vec ℝ}
    (hk : k.length ≤ c)
    (order : Order) :
    (slope direction h p k order).length ≤ c := by
  let k₂ := (direction (p + (h * Scalar.half) • k)).getD k
  let k₃ := (direction (p + (h * Scalar.half) • k₂)).getD k₂
  let k₄ := (direction (p + h • k₃)).getD k₃
  have hk₂ : k₂.length ≤ c := length_sample_le hdirection _ hk
  have hk₃ : k₃.length ≤ c := length_sample_le hdirection _ hk₂
  have hk₄ : k₄.length ≤ c := length_sample_le hdirection _ hk₃
  have htwo : ∀ {v : Vec ℝ}, v.length ≤ c → ((Scalar.two : ℝ) • v).length ≤ 2 * c := fun hv => by
    rw [Scalar.two_exact]
    exact Vec.length_smul_le_of_le zero_le_two hv
  cases order with
  | euler =>
      exact hk
  | midpoint =>
      have hsum := Vec.length_add_le_of_le hk hk₂
      have hmean := Vec.length_smul_le_of_le (s := Scalar.half) (by simp) hsum
      refine le_trans hmean (le_of_eq ?_)
      rw [Scalar.half_exact]
      ring
  | threeSample =>
      have hsum := Vec.length_add_le_of_le (Vec.length_add_le_of_le hk hk₂) hk₃
      have hmean := Vec.length_smul_le_of_le (s := 3⁻¹) (by norm_num) hsum
      refine le_trans hmean (le_of_eq ?_)
      ring
  | rungeKutta4 =>
      have hsum := Vec.length_add_le_of_le (Vec.length_add_le_of_le
        (Vec.length_add_le_of_le hk (htwo hk₂)) (htwo hk₃)) hk₄
      have hmean := Vec.length_smul_le_of_le (s := 6⁻¹) (by norm_num) hsum
      refine le_trans hmean (le_of_eq ?_)
      ring

/-- A step is no longer than its parameter allows at the greatest speed. -/
theorem length_step_le
    {h : ℝ}
    {order : Order}
    {p q : Point ℝ}
    (hstep : step? direction h order p = some q) :
    (q - p).length ≤ c * |h| := by
  obtain ⟨d, hd, rfl, -⟩ := step?_eq_some_iff.mp hstep
  rw [target, Point.add_vec_sub, Vec.length_smul, mul_comm]
  exact mul_le_mul_of_nonneg_right
    (length_slope_le hdirection h p (hdirection p d hd) order) (abs_nonneg h)

end Means

/-- Along a chain of points that are at most `c` apart the distance from the first grows by at most
`c` a point. -/
theorem length_sub_le_of_isChain
    {c : ℝ}
    {p q : Point ℝ}
    {ps : List (Point ℝ)}
    {i : ℕ}
    (h : (p :: ps).IsChain fun a b => (b - a).length ≤ c)
    (hq : (p :: ps)[i]? = some q) :
    (q - p).length ≤ c * i := by
  induction ps generalizing p i with
  | nil =>
      obtain ⟨hi, rfl⟩ := List.getElem?_eq_some_iff.mp hq
      obtain rfl : i = 0 := Nat.lt_one_iff.mp hi
      simp [Point.sub_self_eq]
  | cons a ps ih =>
      obtain ⟨hstep, hrest⟩ := List.isChain_cons_cons.mp h
      cases i with
      | zero =>
          obtain rfl : p = q := Option.some.inj hq
          simp [Point.sub_self_eq]
      | succ i =>
          have hfrom := ih hrest hq
          have htriangle := Point.length_sub_le q a p
          push_cast
          linarith

end Streamline

namespace Field

open Streamline

variable {f : Field ℝ} {p q : Point ℝ} {d : Vec ℝ} {h : ℝ}

theorem speedAt_mem (f : Field ℝ) (p : Point ℝ) : f.speedAt p ∈ Set.Icc (1 / 10) 5 := by
  rw [speedAt_eq]
  exact ⟨le_min (le_max_right _ _) (by norm_num), min_le_right _ _⟩

/-- A direction of a field is as long as its speed. -/
theorem length_directionAt?
    (hd : f.directionAt? p = some d) :
    d.length = f.speedAt p := by
  obtain ⟨hmagnitude, rfl⟩ := directionAt?_eq_some_iff.mp hd
  have hpos : 0 < (f.evaluate p).magnitude := lt_trans softening_pos hmagnitude
  have hspeed : 0 ≤ f.speedAt p := le_trans (by norm_num) (f.speedAt_mem p).1
  rw [Vec.length_smul, abs_of_nonneg (div_nonneg hspeed (le_of_lt hpos))]
  exact div_mul_cancel₀ _ (ne_of_gt hpos)

theorem length_directionAt?_le
    (hd : f.directionAt? p = some d) :
    d.length ≤ 5 := by
  rw [length_directionAt? hd]
  exact (f.speedAt_mem p).2

/-- A step of the first order follows the vector of the field, at least a tenth of its parameter
far. -/
theorem step?_euler
    (hstep : step? f.directionAt? h .euler p = some q) :
    1 / 10 * |h| ≤ (q - p).length ∧
      ∃ c : ℝ, q - p = c • (f.evaluate p).vector ∧ SignType.sign c = SignType.sign h := by
  obtain ⟨d, hd, rfl, -⟩ := step?_eq_some_iff.mp hstep
  have hmove : target f.directionAt? h .euler p d - p = h • d := Point.add_vec_sub p (h • d)
  rw [hmove]
  constructor
  · rw [Vec.length_smul, length_directionAt? hd, mul_comm]
    exact mul_le_mul_of_nonneg_left (f.speedAt_mem p).1 (abs_nonneg h)
  · obtain ⟨hmagnitude, rfl⟩ := directionAt?_eq_some_iff.mp hd
    have hpos : 0 < f.speedAt p / (f.evaluate p).magnitude :=
      div_pos (lt_of_lt_of_le (by norm_num) (f.speedAt_mem p).1) (lt_trans softening_pos hmagnitude)
    refine ⟨_, smul_smul _ _ _, ?_⟩
    rw [sign_mul, sign_pos hpos, mul_one]

end Field

/-- **The speed of a streamline.**  Neighbouring points of a streamline of a field are at most five
times the parameter of a step apart, so each point is within as many times that of the seed as there
are steps to it.  At the first order they are at least a tenth of the parameter apart, and each step
is a multiple of the vector of the field at its start, by a number with the sign of the
parameter. -/
theorem Field.streamline_paced
    (f : Field ℝ)
    (seed : Point ℝ)
    (steps : ℕ)
    (h : ℝ) :
    (∀ order : Streamline.Order,
      (f.streamline seed ⟨steps, h, order⟩).IsChain (fun p q => (q - p).length ≤ 5 * |h|) ∧
      ∀ (i : ℕ) (p : Point ℝ), (f.streamline seed ⟨steps, h, order⟩)[i]? = some p →
        (p - seed).length ≤ 5 * |h| * i) ∧
    (f.streamline seed ⟨steps, h, .euler⟩).IsChain (fun p q =>
      1 / 10 * |h| ≤ (q - p).length ∧
        ∃ c : ℝ, q - p = c • (f.evaluate p).vector ∧ SignType.sign c = SignType.sign h) := by
  refine ⟨fun order => ?_, (f.streamline_isChain seed ⟨steps, h, .euler⟩).imp
    fun p q => Field.step?_euler⟩
  have hbounded : (f.streamline seed ⟨steps, h, order⟩).IsChain
      fun p q => (q - p).length ≤ 5 * |h| :=
    (f.streamline_isChain seed ⟨steps, h, order⟩).imp
      fun p q => Streamline.length_step_le fun _ _ => Field.length_directionAt?_le
  exact ⟨hbounded, fun i p => Streamline.length_sub_le_of_isChain hbounded⟩

namespace Field

section Winds

/-- The same vector everywhere, of a given strength. -/
noncomputable def wind (strength : ℝ) : Field ℝ :=
  .ofSource (.ofModel (.uniform ⟨0, strength, 0⟩))

theorem isUniform_wind (s : ℝ) : (wind s).IsUniform [⟨0, s, 0⟩] :=
  List.Forall₂.cons ⟨rfl, rfl⟩ .nil

theorem length_wind
    {s : ℝ}
    (hs : 0 ≤ s) :
    (⟨0, s, 0⟩ : Vec ℝ).length = s := by
  rw [Vec.length_eq, Real.sqrt_eq_iff_mul_self_eq (by simp [Vec.dot_eq, mul_self_nonneg]) hs]
  simp [Vec.dot_eq]

/-- The line of one step with a wind. -/
theorem streamline_wind
    {s h speed : ℝ}
    (hs : softening < s)
    (hspeed : min (max s (1 / 10)) 5 = speed)
    (hfar : softening ≤ |h| * speed)
    (order : Streamline.Order) :
    (wind s).streamline .origin ⟨1, h, order⟩ = [.origin, ⟨0, h * speed, 0⟩] := by
  have hpos : 0 < s := lt_trans softening_pos hs
  have hsum : Vec.sum [(⟨0, s, 0⟩ : Vec ℝ)] = ⟨0, s, 0⟩ := by
    rw [Vec.sum_exact, List.sum_singleton]
  have hdirection : (wind s).directionAt? = fun _ => some ⟨0, speed, 0⟩ := by
    rw [directionAt?_of_isUniform_of_lt (isUniform_wind s), hsum, length_wind (le_of_lt hpos),
      hspeed]
    · funext _
      congr 1
      ext <;> simp [Vec.div_eq_smul, hpos.ne']
    · rwa [hsum, length_wind (le_of_lt hpos)]
  have hspeed' : 0 ≤ speed := by
    rw [← hspeed]
    positivity
  rw [streamline, hdirection, Streamline.trace_constant, length_wind hspeed',
    if_neg (not_lt.mpr hfar)]
  simp only [List.range_succ_eq_map, List.range_zero, List.map_cons, List.map_nil]
  refine congrArg₂ List.cons ?_ (congrArg₂ List.cons ?_ rfl) <;>
    ext <;> simp [Point.add_vec_eq, Point.origin, mul_comm]

/-- Against a wind stronger than the greatest speed a step is five long, and against one weaker than
the least speed a tenth. -/
theorem streamline_paced_winds :
    (∀ order : Streamline.Order,
      (wind 8).streamline .origin ⟨1, -1, order⟩ = [.origin, ⟨0, -5, 0⟩]) ∧
    ((⟨0, -5, 0⟩ : Point ℝ) - (.origin : Point ℝ)).length ≤ 5 * |(-1 : ℝ)| ∧
    (wind (1 / 100)).streamline .origin ⟨1, -1, .euler⟩ = [.origin, ⟨0, -1 / 10, 0⟩] ∧
    1 / 10 * |(-1 : ℝ)| ≤ ((⟨0, -1 / 10, 0⟩ : Point ℝ) - (.origin : Point ℝ)).length ∧
    ∃ c : ℝ, (⟨0, -1 / 10, 0⟩ : Point ℝ) - (.origin : Point ℝ) =
        c • ((wind (1 / 100)).evaluate .origin).vector ∧
      SignType.sign c = SignType.sign (-1 : ℝ) := by
  have hstrong : ∀ order : Streamline.Order,
      (wind 8).streamline .origin ⟨1, -1, order⟩ = [.origin, ⟨0, -5, 0⟩] := by
    intro order
    have hspeed : min (max 8 (1 / 10)) 5 = (5 : ℝ) := by norm_num
    rw [streamline_wind (by norm_num [softening_exact]) hspeed (by norm_num [softening_exact])]
    norm_num
  have hweak : (wind (1 / 100)).streamline .origin ⟨1, -1, .euler⟩ =
      [.origin, ⟨0, -1 / 10, 0⟩] := by
    have hspeed : min (max (1 / 100) (1 / 10)) 5 = (1 / 10 : ℝ) := by norm_num
    rw [streamline_wind (by norm_num [softening_exact]) hspeed (by norm_num [softening_exact])]
    norm_num
  have hbounded := ((streamline_paced (wind 8) .origin 1 (-1)).1 .euler).1
  have hpaced := (streamline_paced (wind (1 / 100)) .origin 1 (-1)).2
  rw [hstrong, List.isChain_pair] at hbounded
  rw [hweak, List.isChain_pair] at hpaced
  exact ⟨hstrong, hbounded, hweak, hpaced⟩

end Winds

end Field

end FieldGeometry
