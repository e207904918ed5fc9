import FieldGeometry.Proofs.JacobiInvariant
import FieldGeometry.Proofs.Superposition

/-!
# Bounds on the value of a field

In exact arithmetic the strength of an evaluation bounds everything else in it: the length of the
summed vector, and the trace of the summed tensor, which is positive semidefinite.  The principal
directions of that tensor are then three perpendicular unit vectors with non-negative factors in
descending order, whose sum is the square of the total magnitude.

**One action.**  `Sample.Bounded` states the three bounds for a single action, and
`Model.sample_bounded` proves them for each of the five laws; for a line charge they are summed over
its pieces, some of which may have a strength without a direction.

**Superposition.**  The bounds add up along the list of contributions.  The principal directions are
those of the last basis of the plane rotations, which is orthonormal whether or not the rotations
have converged, and the tensor takes no negative value on it.
-/

namespace FieldGeometry

/-- The softening is a billionth, as is the resolution of lengths. -/
theorem softening_exact : (softening : ℝ) = 1 / 1000000000 :=
  Scalar.tolerance_exact

theorem softening_pos : (0 : ℝ) < softening := by
  rw [softening_exact]
  norm_num

namespace Sample

/-- Neither the vector nor the tensor of an action exceeds its strength. -/
structure Bounded (s : Sample ℝ) : Prop where
  length_le : s.vector.length ≤ s.weight
  posSemidef : s.fullTensor.toMatrix.PosSemidef
  trace_le : s.fullTensor.trace ≤ s.weight

theorem weight_eq (s : Sample ℝ) : s.weight = |s.strength| := by
  rfl

/-- Where the source gives no tensor itself, the vector bounds it. -/
theorem bounded_of_length_le
    {s : Sample ℝ}
    (htensor : s.tensor = none)
    (hlength : s.vector.length ≤ s.weight) :
    s.Bounded := by
  have hfull : s.fullTensor = s.weight • SymTensor.outer s.vector.unitOrZero := by
    rw [fullTensor, htensor]
    rfl
  have hweight : 0 ≤ s.weight := abs_nonneg s.strength
  have hunit : s.vector.unitOrZero.dot s.vector.unitOrZero ≤ 1 := by
    rw [← Vec.length_sq]
    exact pow_le_one₀ (Vec.length_nonneg _) (Vec.length_unitOrZero_le _)
  refine ⟨hlength, ?_, ?_⟩
  · rw [hfull]
    exact SymTensor.posSemidef_smul _ hweight (SymTensor.posSemidef_outer _)
  · rw [hfull, SymTensor.trace_smul, SymTensor.trace_outer]
    exact mul_le_of_le_one_right hweight hunit

/-- An action along a unit vector, with the size of its magnitude as its strength. -/
theorem bounded_of_unit
    {u : Vec ℝ}
    (m : ℝ)
    (hu : u.length = 1) :
    (⟨m • u, |m|, none⟩ : Sample ℝ).Bounded := by
  apply bounded_of_length_le rfl
  rw [weight_eq, abs_abs, Vec.length_smul, hu, mul_one]

/-- An action without a direction. -/
theorem bounded_of_zero (m : ℝ) : (⟨Vec.zero, m, none⟩ : Sample ℝ).Bounded := by
  apply bounded_of_length_le rfl
  rw [Vec.zero_eq, Vec.length_zero]
  exact abs_nonneg m

end Sample

section Laws

variable (p : Point ℝ)

theorem PointCharge.sample_bounded (c : PointCharge ℝ) : (c.sample p).Bounded := by
  unfold PointCharge.sample
  simp only
  split_ifs with h
  · exact Sample.bounded_of_zero _
  · have hpos : 0 < (p - c.position).length := lt_trans softening_pos (not_le.mp h)
    apply Sample.bounded_of_unit
    rw [Vec.div_eq_smul, Vec.length_smul, abs_of_pos (inv_pos.mpr hpos)]
    exact inv_mul_cancel₀ (ne_of_gt hpos)

theorem Spin.sample_bounded (s : Spin ℝ) : (s.sample p).Bounded := by
  unfold Spin.sample
  simp only
  split
  · exact Sample.bounded_of_zero _
  · rename_i u hu
    exact Sample.bounded_of_unit _ (Vec.length_of_unit? hu)

/-- The strength of an action that is the length of its vector. -/
theorem bounded_of_strength_eq_length (v : Vec ℝ) : (⟨v, v.length, none⟩ : Sample ℝ).Bounded := by
  apply Sample.bounded_of_length_le rfl
  exact le_abs_self v.length

end Laws

/-- A piece is bounded by its strength, which is therefore not negative; a piece without a
direction gives no tensor. -/
structure Sample.PieceBounded (s : Sample ℝ) : Prop where
  length_le : s.vector.length ≤ s.strength
  posSemidef : ∀ t ∈ s.tensor, t.toMatrix.PosSemidef
  trace_le : ∀ t ∈ s.tensor, t.trace ≤ s.strength

namespace LineCharge

variable (c : LineCharge ℝ) (p : Point ℝ) {i : ℕ}

/-- A piece with its middle at the point has a strength only. -/
theorem pieceSample_of_le (h : (p - c.pieceCentre i).length ≤ Scalar.tolerance) :
    c.pieceSample p i = ⟨0, |c.pieceCharge|, none⟩ := by
  unfold pieceSample
  simp only [Vec.unit?_of_le h]
  rfl

/-- Any other piece acts along a unit vector. -/
theorem exists_pieceSample_of_lt (h : Scalar.tolerance < (p - c.pieceCentre i).length) :
    ∃ (m : ℝ) (u : Vec ℝ), u.length = 1 ∧
      c.pieceSample p i = ⟨m • u, |m|, some (|m| • SymTensor.outer u)⟩ := by
  have hsome := Vec.unit?_of_lt h
  refine ⟨c.pieceCharge / ((p - c.pieceCentre i).lengthSq + softening), _,
    Vec.length_of_unit? hsome, ?_⟩
  unfold pieceSample
  simp only [hsome]
  rfl

/-- The trace of such a piece is its strength, and the length of its vector. -/
theorem trace_smul_outer
    (m : ℝ)
    {u : Vec ℝ}
    (hu : u.length = 1) :
    (|m| • SymTensor.outer u).trace = |m| := by
  rw [SymTensor.trace_smul, SymTensor.trace_outer, Vec.length_eq_one_iff.mp hu, mul_one]

theorem pieceSample_bounded (i : ℕ) : (c.pieceSample p i).PieceBounded := by
  rcases le_or_gt (p - c.pieceCentre i).length Scalar.tolerance with hle | hlt
  · rw [c.pieceSample_of_le p hle]
    refine ⟨?_, ?_, ?_⟩
    · rw [Vec.length_zero]
      exact abs_nonneg c.pieceCharge
    · intro t ht
      cases ht
    · intro t ht
      cases ht
  · obtain ⟨m, u, hu, hpiece⟩ := c.exists_pieceSample_of_lt p hlt
    rw [hpiece]
    refine ⟨?_, ?_, ?_⟩
    · rw [Vec.length_smul, hu, mul_one]
    · intro t ht
      cases ht
      exact SymTensor.posSemidef_smul _ (abs_nonneg _) (SymTensor.posSemidef_outer u)
    · intro t ht
      cases ht
      exact le_of_eq (trace_smul_outer m hu)

/-- The traces of the pieces that give a tensor, against the strengths of all pieces. -/
theorem trace_pieces_le
    {pieces : List (Sample ℝ)}
    (h : ∀ s ∈ pieces, s.PieceBounded) :
    ((pieces.filterMap (·.tensor)).map SymTensor.trace).sum ≤
      (pieces.map (·.strength)).sum := by
  induction pieces with
  | nil =>
      simp
  | cons s pieces ih =>
      have hs := h s List.mem_cons_self
      have hrest := ih fun q hq => h q (List.mem_cons_of_mem s hq)
      rw [List.map_cons, List.sum_cons]
      cases ht : s.tensor with
      | none =>
          have hstrength : 0 ≤ s.strength := le_trans (Vec.length_nonneg _) hs.length_le
          rw [List.filterMap_cons_none ht]
          linarith
      | some t =>
          have htrace := hs.trace_le t ht
          rw [List.filterMap_cons_some ht, List.map_cons, List.sum_cons]
          linarith

theorem sample_bounded : (c.sample p).Bounded := by
  have hpieces : ∀ s ∈ c.pieceSamples p, s.PieceBounded := by
    intro s hs
    obtain ⟨i, _, rfl⟩ := List.mem_map.mp hs
    exact c.pieceSample_bounded p i
  have hstrength : (c.sample p).strength = ((c.pieceSamples p).map (·.strength)).sum :=
    Scalar.sum_exact _
  have hvector : (c.sample p).vector = ((c.pieceSamples p).map (·.vector)).sum :=
    Vec.sum_exact _
  have htensor : (c.sample p).fullTensor = ((c.pieceSamples p).filterMap (·.tensor)).sum :=
    SymTensor.sum_exact _
  have hweight : (c.sample p).strength ≤ (c.sample p).weight := le_abs_self _
  refine ⟨?_, ?_, ?_⟩
  · refine le_trans ?_ hweight
    rw [hvector, hstrength]
    refine le_trans (Vec.length_sum_le _) ?_
    rw [List.map_map]
    exact List.sum_le_sum fun s hs => (hpieces s hs).length_le
  · rw [htensor]
    apply SymTensor.posSemidef_sum
    intro t ht
    obtain ⟨s, hs, hst⟩ := List.mem_filterMap.mp ht
    exact (hpieces s hs).posSemidef t hst
  · refine le_trans ?_ hweight
    rw [htensor, hstrength, SymTensor.trace_sum]
    exact trace_pieces_le hpieces

end LineCharge

/-- Each of the five laws is bounded by its strength. -/
theorem Model.sample_bounded (m : Model ℝ) (p : Point ℝ) : (m.sample p).Bounded := by
  cases m with
  | pointCharge c =>
      exact c.sample_bounded p
  | lineCharge c =>
      exact c.sample_bounded p
  | spin s =>
      exact s.sample_bounded p
  | segmentForce s =>
      exact bounded_of_strength_eq_length _
  | uniform v =>
      exact bounded_of_strength_eq_length v

namespace SymTensor

variable {a : SymTensor ℝ}

/-- The pairs of the run are unit vectors already, so normalising them changes nothing. -/
theorem principal_eq (a : SymTensor ℝ) :
    a.principal.principal =
      a.diagonalize.byMagnitude.map fun pair => ⟨pair.value, pair.vector⟩ := by
  apply List.map_congr_left
  intro pair hpair
  have hmem := (Jacobi.byMagnitude_perm a.diagonalize).mem_iff.mp hpair
  have hspec := Jacobi.pairs_form (Jacobi.diagonalize_represents a .standard) hmem
  rw [Vec.unitOrZero_of_length_eq_one hspec.1]

theorem length_principal (a : SymTensor ℝ) : a.principal.principal.length = 3 := by
  rw [principal_eq, List.length_map, (Jacobi.byMagnitude_perm a.diagonalize).length_eq]
  rfl

/-- A principal direction is a unit vector, and its factor is the value of the form on it. -/
theorem mem_principal {d : PrincipalDirection ℝ} (h : d ∈ a.principal.principal) :
    d.direction.length = 1 ∧ d.magnitude = a.form d.direction d.direction := by
  rw [principal_eq] at h
  obtain ⟨pair, hpair, rfl⟩ := List.mem_map.mp h
  have hmem := (Jacobi.byMagnitude_perm a.diagonalize).mem_iff.mp hpair
  exact Jacobi.pairs_form (Jacobi.diagonalize_represents a .standard) hmem

/-- Sorting keeps the directions perpendicular, which does not depend on their order. -/
theorem principal_perp (a : SymTensor ℝ) :
    a.principal.principal.Pairwise fun c d => c.direction.dot d.direction = 0 := by
  have hpairs := Jacobi.pairs_perp (Jacobi.diagonalize_represents a .standard)
  have hsymm : ∀ {c d : Jacobi.EigenPair ℝ}, c.vector.dot d.vector = 0 →
      d.vector.dot c.vector = 0 := fun {c d} hcd => (Vec.dot_comm _ _).trans hcd
  rw [principal_eq, List.pairwise_map]
  exact ((Jacobi.byMagnitude_perm a.diagonalize).pairwise_iff hsymm).mpr hpairs

theorem sum_principal (a : SymTensor ℝ) :
    (a.principal.principal.map (·.magnitude)).sum = a.trace := by
  rw [principal_eq, List.map_map, ← Jacobi.pairs_sum (Jacobi.diagonalize_represents a .standard)]
  exact ((Jacobi.byMagnitude_perm a.diagonalize).map _).sum_eq

theorem principal_nonneg
    (h : a.toMatrix.PosSemidef)
    {d : PrincipalDirection ℝ}
    (hd : d ∈ a.principal.principal) :
    0 ≤ d.magnitude := by
  rw [(mem_principal hd).2]
  exact a.form_self_nonneg d.direction h

/-- The directions are ordered by the size of their factors, so descending where no factor is
negative. -/
theorem principal_descending (h : a.toMatrix.PosSemidef) :
    a.principal.principal.Pairwise fun c d => d.magnitude ≤ c.magnitude := by
  have hsorted : a.principal.principal.Pairwise fun c d => |d.magnitude| ≤ |c.magnitude| := by
    rw [principal_eq, List.pairwise_map]
    exact Jacobi.byMagnitude_sorted a.diagonalize
  refine hsorted.imp_of_mem fun {c d} hc hd hcd => ?_
  rwa [abs_of_nonneg (principal_nonneg h hc), abs_of_nonneg (principal_nonneg h hd)] at hcd

/-- The total magnitude is the root of the trace, where that is not negative. -/
theorem totalMagnitude_sq (h : 0 ≤ a.trace) : a.principal.totalMagnitude ^ 2 = a.trace := by
  have htotal : a.principal.totalMagnitude = √a.trace := by
    show Scalar.sqrt (Scalar.maxNum a.sanitized.trace 0) = _
    rw [sanitized_exact, Scalar.maxNum_exact, Scalar.sqrt_exact, max_eq_left h]
  rw [htotal, Real.sq_sqrt h]

end SymTensor

namespace Field

section Bounds

variable (f : Field ℝ) (p : Point ℝ)

/-- Whatever contributes to an evaluation is bounded. -/
theorem samples_bounded : ∀ a ∈ f.sources.filterMap (·.sample? p), a.Bounded := by
  intro a ha
  obtain ⟨s, _, hs⟩ := List.mem_filterMap.mp ha
  rw [Source.sample?_exact] at hs
  split_ifs at hs with hacts
  cases hs
  exact s.model.sample_bounded p

theorem magnitude_le_strength : (f.evaluate p).magnitude ≤ (f.evaluate p).strength := by
  show (f.evaluate p).vector.length ≤ _
  rw [evaluate_vector, evaluate_strength]
  refine le_trans (Vec.length_sum_le _) ?_
  rw [List.map_map]
  exact List.sum_le_sum fun a ha => (f.samples_bounded p a ha).length_le

theorem matrix_posSemidef : (f.evaluate p).tensor.matrix.toMatrix.PosSemidef := by
  rw [evaluate_matrix]
  apply SymTensor.posSemidef_sum
  intro t ht
  obtain ⟨a, ha, rfl⟩ := List.mem_map.mp ht
  exact (f.samples_bounded p a ha).posSemidef

theorem trace_le_strength : (f.evaluate p).tensor.matrix.trace ≤ (f.evaluate p).strength := by
  rw [evaluate_matrix, evaluate_strength, SymTensor.trace_sum, List.map_map]
  exact List.sum_le_sum fun a ha => (f.samples_bounded p a ha).trace_le

/-- **The strength bounds an evaluation.**  Its vector is no longer than its strength.  Its tensor
is positive semidefinite with a trace of at most the strength, and the three principal directions
are perpendicular unit vectors whose factors descend, are not negative and add up to the square of
the total magnitude. -/
theorem evaluate_bounded :
    (f.evaluate p).magnitude ≤ (f.evaluate p).strength ∧
    (f.evaluate p).tensor.matrix.toMatrix.PosSemidef ∧
    (f.evaluate p).tensor.matrix.trace ≤ (f.evaluate p).strength ∧
    ∃ c d e : PrincipalDirection ℝ,
      (f.evaluate p).tensor.principal = [c, d, e] ∧
      (c.direction.length = 1 ∧ d.direction.length = 1 ∧ e.direction.length = 1) ∧
      (c.direction.dot d.direction = 0 ∧ c.direction.dot e.direction = 0 ∧
        d.direction.dot e.direction = 0) ∧
      (0 ≤ e.magnitude ∧ e.magnitude ≤ d.magnitude ∧ d.magnitude ≤ c.magnitude) ∧
      c.magnitude + d.magnitude + e.magnitude = (f.evaluate p).tensor.totalMagnitude ^ 2 := by
  have hpos := f.matrix_posSemidef p
  refine ⟨f.magnitude_le_strength p, hpos, f.trace_le_strength p, ?_⟩
  obtain ⟨c, d, e, hlist⟩ := List.length_eq_three.mp
    (SymTensor.length_principal (f.evaluate p).tensor.matrix)
  have hunit : ∀ x ∈ [c, d, e], x.direction.length = 1 := fun x hx =>
    (SymTensor.mem_principal (hlist ▸ hx)).1
  have hnonneg : 0 ≤ e.magnitude :=
    SymTensor.principal_nonneg hpos (hlist ▸ by simp)
  have hperp := SymTensor.principal_perp (f.evaluate p).tensor.matrix
  have hdescending := SymTensor.principal_descending hpos
  have hsum := SymTensor.sum_principal (f.evaluate p).tensor.matrix
  have htotal : (f.evaluate p).tensor.totalMagnitude ^ 2 = (f.evaluate p).tensor.matrix.trace := by
    apply SymTensor.totalMagnitude_sq
    rw [← SymTensor.toMatrix_trace]
    exact hpos.trace_nonneg
  rw [hlist] at hperp hdescending hsum
  simp only [List.pairwise_cons, List.mem_cons, List.not_mem_nil, or_false, forall_eq_or_imp,
    forall_eq] at hunit hperp hdescending
  simp only [List.map_cons, List.map_nil, List.sum_cons, List.sum_nil] at hsum
  refine ⟨c, d, e, hlist, hunit, ⟨hperp.1.1, hperp.1.2, hperp.2.1⟩,
    ⟨hnonneg, hdescending.2.1, hdescending.1.1⟩, ?_⟩
  rw [htotal, ← hsum]
  ring

end Bounds

end Field

end FieldGeometry
