import FieldGeometry.Proofs.EvaluationBounds
import FieldGeometry.Proofs.FrameHints

/-!
# Line charges

A line charge acts as a list of pieces, so in exact arithmetic what is shown of one piece is summed
over the list.

**Symmetry.**  Seen from the other end, the pieces are the same in reverse order, because the
fractions at which their middles lie pair up to one (`pieceCentre_reversed`).  Multiplying the
charge multiplies each piece.

**Balance.**  A piece whose middle is not at the point has a tensor, whose trace is its strength and
the length of its vector.  A piece whose middle is at the point has neither, and all of its charge
as its strength.  So the strength of the whole exceeds the trace of its tensor by the charge of the
pieces of the second kind (`strength_pieces`), and its vector is no longer than the trace
(`length_vector_pieces`).
-/

namespace FieldGeometry

/-- From the other end of a segment the fractions count down. -/
theorem Segment.pointAt_swapped (s : Segment ℝ) (t : ℝ) :
    (⟨s.stop, s.start⟩ : Segment ℝ).pointAt t = s.pointAt (1 - t) := by
  ext <;> simp only [pointAt, Point.lerp] <;> ring

/-- The action of a source whose charge is multiplied by a factor: the vector takes the sign of the
factor, the strength and the tensor its size only. -/
noncomputable def Sample.scaled (k : ℝ) (s : Sample ℝ) : Sample ℝ :=
  ⟨k • s.vector, |k| * s.strength, s.tensor.map (|k| • ·)⟩

namespace LineCharge

/-- The charge along the segment taken from its other end. -/
def reversed (c : LineCharge ℝ) : LineCharge ℝ :=
  { c with segment := ⟨c.segment.stop, c.segment.start⟩ }

/-- The charge along the same segment multiplied by a factor. -/
noncomputable def scaled (k : ℝ) (c : LineCharge ℝ) : LineCharge ℝ :=
  { c with charge := k * c.charge }

/-- The middle of a piece is within the tolerance of a point. -/
noncomputable def meets (c : LineCharge ℝ) (p : Point ℝ) (i : ℕ) : Bool :=
  decide ((p - c.pieceCentre i).length ≤ Scalar.tolerance)

/-- The number of pieces whose middle is within the tolerance of a point. -/
noncomputable def piecesAt (c : LineCharge ℝ) (p : Point ℝ) : ℕ :=
  (List.range c.pieceCount).countP (c.meets p)

section Counts

variable (c : LineCharge ℝ)

theorem pieceCount_mem : c.pieceCount ∈ Set.Icc 8 10000 := by
  unfold pieceCount
  simp only [Scalar.isFinite_exact, Bool.true_and, decide_eq_true_eq]
  split_ifs with h
  · rw [Scalar.toCount_exact]
    have hfloor : 8 ≤ ⌊Scalar.round (((4 : ℕ) : ℝ) * c.segment.length)⌋₊ := Nat.le_floor (le_of_lt h)
    constructor <;> omega
  · constructor <;> norm_num

theorem pieceCount_reversed : c.reversed.pieceCount = c.pieceCount := by
  have hlength : c.reversed.segment.length = c.segment.length := Point.length_sub_comm _ _
  rw [pieceCount, pieceCount, hlength]

/-- From the other end the middles of the pieces come in reverse order. -/
theorem pieceCentre_reversed
    {i : ℕ}
    (h : i < c.pieceCount) :
    c.reversed.pieceCentre i = c.pieceCentre (c.pieceCount - 1 - i) := by
  have hne : (c.pieceCount : ℝ) ≠ 0 := by
    exact_mod_cast (show c.pieceCount ≠ 0 by omega)
  have hcast : ((c.pieceCount - 1 - i : ℕ) : ℝ) = c.pieceCount - 1 - i := by
    rw [Nat.cast_sub (by omega), Nat.cast_sub (by omega), Nat.cast_one]
  rw [pieceCentre, pieceCentre, pieceCount_reversed, reversed, Segment.pointAt_swapped, hcast,
    Scalar.half_exact]
  congr 1
  field_simp
  ring

end Counts

section Pieces

variable (c : LineCharge ℝ) (p : Point ℝ)

/-- From the other end the pieces come in reverse order. -/
theorem pieceSamples_reversed : c.reversed.pieceSamples p = (c.pieceSamples p).reverse := by
  have hpiece : ∀ i ∈ List.range c.pieceCount,
      c.reversed.pieceSample p i = c.pieceSample p (c.pieceCount - 1 - i) := by
    intro i hi
    have hcharge : c.reversed.pieceCharge = c.pieceCharge := by
      rw [pieceCharge, pieceCharge, pieceCount_reversed]
      rfl
    rw [pieceSample, pieceSample, c.pieceCentre_reversed (List.mem_range.mp hi), hcharge]
  rw [pieceSamples, pieceSamples, pieceCount_reversed, List.map_congr_left hpiece,
    ← List.map_reverse, List.range_eq_range', List.reverse_range', List.map_map, Nat.zero_add,
    ← List.range_eq_range']
  rfl

theorem sample_reversed : c.reversed.sample p = c.sample p := by
  have hperm : (c.reversed.pieceSamples p).Perm (c.pieceSamples p) := by
    rw [pieceSamples_reversed]
    exact List.reverse_perm _
  simp only [sample, Vec.sum_exact, Scalar.sum_exact, SymTensor.sum_exact]
  rw [(hperm.map _).sum_eq, (hperm.map _).sum_eq, (hperm.filterMap _).sum_eq]

variable (k : ℝ)

/-- Multiplying the charge multiplies each piece. -/
theorem pieceSample_scaled (i : ℕ) :
    (c.scaled k).pieceSample p i = (c.pieceSample p i).scaled k := by
  have hcharge : (c.scaled k).pieceCharge = k * c.pieceCharge := mul_div_assoc _ _ _
  have hcentre : (c.scaled k).pieceCentre i = c.pieceCentre i := rfl
  unfold pieceSample
  simp only [hcharge, hcentre]
  cases (p - c.pieceCentre i).unit? with
  | none =>
      simp [Sample.scaled, abs_mul]
  | some u =>
      simp [Sample.scaled, abs_mul, mul_div_assoc, mul_smul]

theorem sample_scaled : (c.scaled k).sample p = (c.sample p).scaled k := by
  have hpieces : (c.scaled k).pieceSamples p = (c.pieceSamples p).map (Sample.scaled k) := by
    rw [pieceSamples, pieceSamples, List.map_map]
    exact List.map_congr_left fun i _ => c.pieceSample_scaled p k i
  have hvector : ((c.pieceSamples p).map fun s => k • s.vector).sum =
      k • ((c.pieceSamples p).map (·.vector)).sum := by
    rw [List.smul_sum, List.map_map]
    rfl
  have hstrength : ((c.pieceSamples p).map fun s => |k| * s.strength).sum =
      |k| * ((c.pieceSamples p).map (·.strength)).sum := List.sum_map_mul_left ..
  have htensor : ((c.pieceSamples p).filterMap fun s => s.tensor.map (|k| • ·)).sum =
      |k| • ((c.pieceSamples p).filterMap (·.tensor)).sum := by
    rw [List.smul_sum, List.map_filterMap]
  simp only [sample, hpieces, Vec.sum_exact, Scalar.sum_exact, SymTensor.sum_exact, List.map_map,
    List.filterMap_map]
  exact congr (congrArg₂ Sample.mk hvector hstrength) (congrArg some htensor)

end Pieces

section Balance

variable (c : LineCharge ℝ) (p : Point ℝ)

/-- The strengths of pieces are the trace of their tensors and the charges of those without one. -/
theorem strength_pieces (is : List ℕ) :
    (is.map fun i => (c.pieceSample p i).strength).sum =
      (is.filterMap fun i => (c.pieceSample p i).tensor).sum.trace +
        is.countP (c.meets p) * |c.pieceCharge| := by
  induction is with
  | nil =>
      simp
  | cons i is ih =>
      rw [List.map_cons, List.sum_cons, ih]
      rcases le_or_gt (p - c.pieceCentre i).length Scalar.tolerance with hle | hlt
      · have hpiece := c.pieceSample_of_le p hle
        have hmeets : c.meets p i = true := decide_eq_true hle
        rw [List.filterMap_cons_none (by rw [hpiece]), List.countP_cons_of_pos hmeets, hpiece]
        push_cast
        ring
      · obtain ⟨m, u, hu, hpiece⟩ := c.exists_pieceSample_of_lt p hlt
        have hmeets : ¬ c.meets p i = true := by
          simpa [meets] using hlt
        rw [List.filterMap_cons_some (by rw [hpiece]), List.countP_cons_of_neg hmeets, hpiece,
          List.sum_cons, SymTensor.trace_add, trace_smul_outer m hu, add_assoc]

/-- The vectors of pieces add up to one that is no longer than the trace of their tensors. -/
theorem length_vector_pieces (is : List ℕ) :
    (is.map fun i => (c.pieceSample p i).vector).sum.length ≤
      (is.filterMap fun i => (c.pieceSample p i).tensor).sum.trace := by
  induction is with
  | nil =>
      simp
  | cons i is ih =>
      rw [List.map_cons, List.sum_cons]
      rcases le_or_gt (p - c.pieceCentre i).length Scalar.tolerance with hle | hlt
      · have hpiece := c.pieceSample_of_le p hle
        rw [List.filterMap_cons_none (by rw [hpiece]), hpiece, zero_add]
        exact ih
      · obtain ⟨m, u, hu, hpiece⟩ := c.exists_pieceSample_of_lt p hlt
        rw [List.filterMap_cons_some (by rw [hpiece]), hpiece, List.sum_cons, SymTensor.trace_add,
          trace_smul_outer m hu]
        refine le_trans (Vec.length_add_le _ _) (add_le_add ?_ ih)
        rw [Vec.length_smul, hu, mul_one]

theorem abs_pieceCharge : |c.pieceCharge| = |c.charge| / c.pieceCount := by
  rw [pieceCharge, abs_div, Nat.abs_cast]

end Balance

/-- **A line charge acts as its pieces.**  There are between 8 and 10 000 of them.  Swapping the
ends of the segment changes nothing.  Multiplying the charge multiplies the vector by the factor,
and the strength and the tensor by its size.  The tensor is positive semidefinite; the strength is
its trace and the charge of the pieces whose middle is at the point, and the vector is no longer
than the trace. -/
theorem sample_pieces (c : LineCharge ℝ) (p : Point ℝ) :
    c.pieceCount ∈ Set.Icc 8 10000 ∧
    c.reversed.sample p = c.sample p ∧
    (∀ k : ℝ, (c.scaled k).sample p = (c.sample p).scaled k) ∧
    ∃ t : SymTensor ℝ, (c.sample p).tensor = some t ∧
      t.toMatrix.PosSemidef ∧
      (c.sample p).strength = t.trace + c.piecesAt p * (|c.charge| / c.pieceCount) ∧
      (c.sample p).vector.length ≤ t.trace := by
  refine ⟨c.pieceCount_mem, c.sample_reversed p, c.sample_scaled p, _, rfl, ?_, ?_, ?_⟩
  · exact (c.sample_bounded p).posSemidef
  · show Scalar.sum _ = (SymTensor.sum _).trace + _
    rw [Scalar.sum_exact, SymTensor.sum_exact, ← abs_pieceCharge, pieceSamples, List.map_map,
      List.filterMap_map]
    exact c.strength_pieces p (List.range c.pieceCount)
  · show (Vec.sum _).length ≤ (SymTensor.sum _).trace
    rw [Vec.sum_exact, SymTensor.sum_exact, pieceSamples, List.map_map, List.filterMap_map]
    exact c.length_vector_pieces p (List.range c.pieceCount)

end LineCharge

end FieldGeometry
