import FieldGeometry.Proofs.EigenAccuracy
import FieldGeometry.Proofs.FrameAxes
import FieldGeometry.Proofs.Points

/-!
# How a plane is fitted

What the fit of a plane to points consists of, in exact arithmetic.  Three points or more have a
centroid, the offsets from it add up to zero, and their products add up to the scatter tensor, whose
trace is the sum of their squared lengths.

**Clusters.**  The fit looks at the eigenvalues first.  Points whose scatter has none above the
resolution are a cluster, and are fitted by the horizontal plane through their centroid
(`leastScatter_of_clustered`).  Since the eigenvalues are not negative and add up to the trace, a
cluster is known by the squared distances of its points from the centroid, up to a factor of three
(`Clustered.trace_le`, `clustered_of_trace_le`).

**Planes.**  Other points are fitted by the plane across the vector of a least eigenvalue
(`leastScatter_of_not_clustered`), which is the first one in ascending order
(`Jacobi.exists_least`).
-/

namespace FieldGeometry

namespace SymTensor

section Sums

variable (a b : SymTensor ℝ) (u v w : Vec ℝ)

@[simp] theorem zero_form : (0 : SymTensor ℝ).form v w = 0 := by
  simp [form_eq, zero_entries]

@[simp] theorem add_form : (a + b).form v w = a.form v w + b.form v w := by
  simp only [form_eq, add_entries]
  ring

/-- The form of the product of a vector with itself is the product of two projections onto it. -/
@[simp] theorem outer_form : (outer u).form v w = u.dot v * u.dot w := by
  simp only [form_eq, outer, Vec.dot_eq]
  ring

theorem sum_form (as : List (SymTensor ℝ)) :
    as.sum.form v w = (as.map fun a => a.form v w).sum := by
  induction as with
  | nil =>
      simp
  | cons a as ih =>
      simp [ih]

end Sums

end SymTensor

namespace Point

theorem centroid?_of_ne_nil
    {ps : List (Point ℝ)}
    (h : ps ≠ []) :
    centroid? ps = some (ofVec ((ps.length : ℝ)⁻¹ • (ps.map toVec).sum)) := by
  rw [centroid?, if_neg (by simpa using h), Vec.sum_exact, Vec.div_eq_smul]

/-- A list of points that is not empty has a centroid. -/
theorem exists_centroid
    {ps : List (Point ℝ)}
    (h : ps ≠ []) :
    ∃ c, centroid? ps = some c :=
  ⟨_, centroid?_of_ne_nil h⟩

/-- Points whose coordinates add up to zero are centred at the origin. -/
theorem centroid_of_sum_eq_zero
    {ps : List (Point ℝ)}
    (hne : ps ≠ [])
    (hsum : (ps.map toVec).sum = 0) :
    centroid? ps = some origin := by
  rw [centroid?_of_ne_nil hne, hsum, smul_zero]
  rfl

theorem sum_sub (ps : List (Point ℝ)) (o : Point ℝ) :
    (ps.map (· - o)).sum = (ps.map toVec).sum - (ps.length : ℝ) • o.toVec := by
  induction ps with
  | nil =>
      simp
  | cons p ps ih =>
      rw [List.map_cons, List.sum_cons, ih, List.map_cons, List.sum_cons, List.length_cons,
        Nat.cast_succ, sub_eq_toVec_sub]
      module

/-- The offsets from the centroid add up to zero. -/
theorem sum_sub_centroid
    {ps : List (Point ℝ)}
    {c : Point ℝ}
    (h : centroid? ps = some c) :
    (ps.map (· - c)).sum = 0 := by
  by_cases hne : ps = []
  · rw [hne]
    rfl
  · rw [centroid?_of_ne_nil hne] at h
    cases h
    have hlength : (ps.length : ℝ) ≠ 0 := by
      simpa using hne
    have hmean : ∀ v : Vec ℝ, (ofVec v).toVec = v := fun _ => rfl
    rw [sum_sub, hmean, smul_smul, mul_inv_cancel₀ hlength, one_smul, sub_self]

end Point

namespace Jacobi

theorem ascending_perm (r : Run ℝ) : r.ascending.Perm r.pairs :=
  List.mergeSort_perm _ _

theorem ascending_sorted (r : Run ℝ) :
    r.ascending.Pairwise fun p q => p.value ≤ q.value := by
  have hsorted : r.ascending.Pairwise fun p q => Scalar.precedes p.value q.value = true := by
    apply List.pairwise_mergeSort
    · intro p q r hpq hqr
      exact Scalar.precedes_trans _ _ _ hpq hqr
    · intro p q
      exact Scalar.precedes_total _ _
  refine hsorted.imp fun {p q} hpq => ?_
  simpa using hpq

/-- The first pair in ascending order is one of the least value. -/
theorem exists_least (r : Run ℝ) :
    ∃ least ∈ r.pairs, r.ascending.head? = some least ∧ ∀ pair ∈ r.pairs, least.value ≤ pair.value := by
  have hperm := ascending_perm r
  have hsorted := ascending_sorted r
  cases hascending : r.ascending with
  | nil =>
      rw [hascending] at hperm
      exact absurd hperm.nil_eq (by simp [Run.pairs])
  | cons least rest =>
      rw [hascending] at hperm hsorted
      refine ⟨least, hperm.subset List.mem_cons_self, rfl, ?_⟩
      intro pair hpair
      rcases List.mem_cons.mp (hperm.symm.subset hpair) with rfl | hrest
      · exact le_refl _
      · exact List.rel_of_pairwise_cons hsorted hrest

end Jacobi

namespace PlaneFit

section Scatter

variable (c : Point ℝ) (ps : List (Point ℝ))

theorem scatter_eq_sum : scatter c ps = (ps.map fun p => SymTensor.outer (p - c)).sum :=
  SymTensor.sum_exact _

/-- The trace of the scatter is the sum of the squared distances from the centre. -/
theorem trace_scatter :
    (scatter c ps).trace = (ps.map fun p => (p - c).dot (p - c)).sum := by
  rw [scatter_eq_sum, SymTensor.trace_sum, List.map_map]
  rfl

/-- No point is farther from the centre than the trace of the scatter allows. -/
theorem dot_self_le_trace
    {ps : List (Point ℝ)}
    {p : Point ℝ}
    (hp : p ∈ ps) :
    (p - c).dot (p - c) ≤ (scatter c ps).trace := by
  rw [trace_scatter]
  apply List.single_le_sum
  · simp only [List.mem_map]
    rintro _ ⟨q, -, rfl⟩
    exact Vec.dot_self_nonneg _
  · exact List.mem_map_of_mem hp

/-- The scatter takes no negative value. -/
theorem form_scatter_nonneg (v : Vec ℝ) : 0 ≤ (scatter c ps).form v v := by
  apply SymTensor.form_self_nonneg
  rw [scatter_eq_sum]
  apply SymTensor.posSemidef_sum
  simp only [List.mem_map]
  rintro _ ⟨p, -, rfl⟩
  exact SymTensor.posSemidef_outer _

end Scatter

section Fit

variable {c : Point ℝ} {ps : List (Point ℝ)}

/-- The points are clustered: no eigenvalue of their scatter is above the resolution. -/
def Clustered (c : Point ℝ) (ps : List (Point ℝ)) : Prop :=
  ∀ pair ∈ (scatter c ps).diagonalize.pairs, |pair.value| ≤ Scalar.tolerance

/-- The points of a cluster are close to its centre. -/
theorem Clustered.trace_le (h : Clustered c ps) :
    (scatter c ps).trace ≤ 3 * Scalar.tolerance := by
  have hsum := Jacobi.pairs_sum (Jacobi.diagonalize_represents (scatter c ps) .standard)
  rw [Clustered] at h
  simp only [Jacobi.Run.pairs, List.forall_mem_cons] at h
  simp only [Jacobi.Run.pairs, List.map_cons, List.map_nil, List.sum_cons, List.sum_nil] at hsum
  obtain ⟨hfirst, hsecond, hthird, -⟩ := h
  linarith [le_of_abs_le hfirst, le_of_abs_le hsecond, le_of_abs_le hthird]

/-- Points close to a centre are a cluster about it. -/
theorem clustered_of_trace_le (h : (scatter c ps).trace ≤ Scalar.tolerance) : Clustered c ps := by
  have hinvariant := Jacobi.diagonalize_represents (scatter c ps) .standard
  have hnonneg : ∀ pair ∈ (scatter c ps).diagonalize.pairs, 0 ≤ pair.value := by
    intro pair hpair
    rw [(Jacobi.pairs_form hinvariant hpair).2]
    exact form_scatter_nonneg c ps pair.vector
  intro pair hpair
  rw [abs_of_nonneg (hnonneg pair hpair)]
  apply le_trans _ h
  rw [← Jacobi.pairs_sum hinvariant]
  apply List.single_le_sum
  · simp only [List.mem_map]
    rintro _ ⟨other, hother, rfl⟩
    exact hnonneg other hother
  · exact List.mem_map_of_mem hpair

theorem leastScatter_of_clustered (h : Clustered c ps) (lead : Point ℝ) :
    leastScatter c lead ps = exact (.worldXY c) := by
  have hall : ((scatter c ps).diagonalize.pairs.all fun pair =>
      decide (Scalar.abs pair.value ≤ Scalar.tolerance)) = true := by
    simpa [List.all_eq_true, Clustered] using h
  rw [leastScatter, if_pos hall]

/-- Points that are not clustered are fitted by a plane through the centre, across the vector of a
least eigenvalue, and their distances from it are measured. -/
theorem leastScatter_of_not_clustered (h : ¬ Clustered c ps) (lead : Point ℝ) :
    ∃ least ∈ (scatter c ps).diagonalize.pairs,
      (∀ pair ∈ (scatter c ps).diagonalize.pairs, least.value ≤ pair.value) ∧
      (leastScatter c lead ps).frame.origin = c ∧
      (leastScatter c lead ps).frame.zAxis = least.vector ∧
      (leastScatter c lead ps).deviation = largestDistance (leastScatter c lead ps).frame ps := by
  have hall : ¬ ((scatter c ps).diagonalize.pairs.all fun pair =>
      decide (Scalar.abs pair.value ≤ Scalar.tolerance)) = true := by
    simpa [List.all_eq_true, Clustered] using h
  obtain ⟨least, hmem, hhead, hleast⟩ := Jacobi.exists_least (scatter c ps).diagonalize
  have hunit : least.vector.length = 1 :=
    (Jacobi.pairs_form (Jacobi.diagonalize_represents _ _) hmem).1
  refine ⟨least, hmem, hleast, ?_⟩
  rw [leastScatter, if_neg hall, hhead]
  simp only [Option.map_some, Option.getD_some, Frame.ofAxes_origin, Frame.ofAxes_zAxis,
    Vec.unitOr_of_length_eq_one _ hunit, and_self]

/-- Three points or more are fitted through their centroid. -/
theorem ofPoints_of_three_le
    (hcount : 3 ≤ ps.length)
    (hcentroid : Point.centroid? ps = some c) :
    ∃ lead ∈ ps, ofPoints ps = leastScatter c lead ps := by
  obtain _ | ⟨p, _ | ⟨q, _ | ⟨r, rest⟩⟩⟩ := ps
  · simp at hcount
  · simp at hcount
  · simp at hcount
  · refine ⟨p, List.mem_cons_self, ?_⟩
    rw [ofPoints, hcentroid]
    all_goals simp

theorem ofPoints_of_clustered
    (hcount : 3 ≤ ps.length)
    (hcentroid : Point.centroid? ps = some c)
    (h : Clustered c ps) :
    ofPoints ps = exact (.worldXY c) := by
  obtain ⟨lead, -, hfit⟩ := ofPoints_of_three_le hcount hcentroid
  rw [hfit, leastScatter_of_clustered h lead]

end Fit

end PlaneFit

end FieldGeometry
