import FieldGeometry.Proofs.FieldAlgebra
import FieldGeometry.Proofs.PlaneCoordinates
import FieldGeometry.Proofs.Tensors

/-!
# Superposition

A field is evaluated by collecting the contributions of its sources and adding them up.  This module
takes the collection apart.

**Contributions.**  The contributions of a list of sources are those of its parts, one after the
other, where the later part counts its indices on from the earlier (`contributionsFrom_append`).
Starting the count elsewhere moves every index by the same amount (`contributionsFrom_add`), because
an index counts all sources before it, those that are left out included.

**Merging.**  `Field.merge` concatenates sources, so the contributions of a merged field are those
of its fields with every index moved past the earlier fields.  This holds for every scalar
arithmetic.

**Sums.**  In exact arithmetic the vector, the strength and the tensor are sums in a commutative
monoid.  Those of a merged field are the sums of those of its fields and do not depend on the order.
-/

namespace FieldGeometry

section Contributions

variable {α : Type} [Scalar α]

/-- The same part in a field that has `n` more sources before it. -/
def Contribution.shift (n : Nat) (c : Contribution α) : Contribution α :=
  { c with index := c.index + n }

namespace Field

/-- The number of sources in the first `k` fields of a list. -/
def sourcesBefore (fs : List (Field α)) (k : Nat) : Nat :=
  ((fs.take k).map fun f => f.sources.length).sum

omit [Scalar α] in
theorem sourcesBefore_zero (fs : List (Field α)) : sourcesBefore fs 0 = 0 := by
  simp [sourcesBefore]

omit [Scalar α] in
theorem sourcesBefore_succ (f : Field α) (fs : List (Field α)) (k : Nat) :
    sourcesBefore (f :: fs) (k + 1) = f.sources.length + sourcesBefore fs k := by
  simp [sourcesBefore]

theorem contributionsFrom_append
    (p : Point α)
    (i : Nat)
    (ss ts : List (Source α)) :
    contributionsFrom p i (ss ++ ts) =
      contributionsFrom p i ss ++ contributionsFrom p (i + ss.length) ts := by
  induction ss generalizing i with
  | nil =>
      rfl
  | cons s ss ih =>
      have hlength : i + 1 + ss.length = i + (s :: ss).length := by
        rw [List.length_cons]
        omega
      simp only [List.cons_append, contributionsFrom, ih, hlength]
      cases s.sample? p with
      | none =>
          rfl
      | some sample =>
          rfl

/-- Counting from a later index moves every index by the same amount. -/
theorem contributionsFrom_add
    (p : Point α)
    (i n : Nat)
    (ss : List (Source α)) :
    contributionsFrom p (i + n) ss = (contributionsFrom p i ss).map (Contribution.shift n) := by
  induction ss generalizing i with
  | nil =>
      rfl
  | cons s ss ih =>
      have hnext : i + n + 1 = i + 1 + n := by omega
      simp only [contributionsFrom, hnext, ih]
      cases s.sample? p with
      | none =>
          rfl
      | some sample =>
          rfl

/-- What contributes are the actions of the sources, as far as there are any. -/
theorem samples_contributionsFrom
    (p : Point α)
    (i : Nat)
    (ss : List (Source α)) :
    (contributionsFrom p i ss).map (·.sample) = ss.filterMap (·.sample? p) := by
  induction ss generalizing i with
  | nil =>
      rfl
  | cons s ss ih =>
      rw [contributionsFrom]
      cases h : s.sample? p with
      | none =>
          simp [h, ih]
      | some sample =>
          simp [h, ih]

/-- The contributions of concatenated fields, counted from an index on. -/
theorem contributionsFrom_flatMap
    (p : Point α)
    (n : Nat)
    (fs : List (Field α)) :
    contributionsFrom p n (fs.flatMap (·.sources)) =
      (fs.mapIdx fun k f =>
        (f.contributions p).map (Contribution.shift (n + sourcesBefore fs k))).flatten := by
  induction fs generalizing n with
  | nil =>
      rfl
  | cons f fs ih =>
      have hfirst : contributionsFrom p n f.sources =
          (f.contributions p).map (Contribution.shift n) := by
        rw [contributions, ← contributionsFrom_add, Nat.zero_add]
      rw [List.flatMap_cons, contributionsFrom_append, ih, List.mapIdx_cons, List.flatten_cons,
        hfirst]
      simp only [sourcesBefore_zero, sourcesBefore_succ, Nat.add_zero, Nat.add_assoc]

theorem contributions_merge (fs : List (Field α)) (p : Point α) :
    (merge fs).contributions p =
      (fs.mapIdx fun k f =>
        (f.contributions p).map (Contribution.shift (sourcesBefore fs k))).flatten := by
  rw [contributions, sources_merge, contributionsFrom_flatMap]
  simp only [Nat.zero_add]

end Field

end Contributions

/-- Every action is finite, so only the region decides whether a source acts. -/
theorem Source.sample?_exact (s : Source ℝ) (p : Point ℝ) :
    s.sample? p = if s.actsAt p then some (s.model.sample p) else none := by
  simp [sample?, Sample.isFinite, Vec.isFinite]

namespace Field

section Sums

variable (f : Field ℝ) (fs : List (Field ℝ)) (p : Point ℝ)

theorem evaluate_vector :
    (f.evaluate p).vector = ((f.sources.filterMap (·.sample? p)).map (·.vector)).sum := by
  rw [← samples_contributionsFrom p 0, List.map_map]
  exact Vec.sum_exact _

theorem evaluate_strength :
    (f.evaluate p).strength = ((f.sources.filterMap (·.sample? p)).map (·.weight)).sum := by
  rw [← samples_contributionsFrom p 0, List.map_map]
  exact Scalar.sum_exact _

theorem evaluate_matrix :
    (f.evaluate p).tensor.matrix =
      ((f.sources.filterMap (·.sample? p)).map (·.fullTensor)).sum := by
  rw [← samples_contributionsFrom p 0, List.map_map]
  exact SymTensor.sum_exact _

/-- A figure that is summed over the actions of a merged field is the sum of the figures of its
fields. -/
theorem sum_samples_merge
    {M : Type}
    [AddCommMonoid M]
    (figure : Sample ℝ → M) :
    (((merge fs).sources.filterMap (·.sample? p)).map figure).sum =
      (fs.map fun f => ((f.sources.filterMap (·.sample? p)).map figure).sum).sum := by
  rw [sources_merge]
  induction fs with
  | nil =>
      rfl
  | cons f fs ih =>
      rw [List.flatMap_cons, List.filterMap_append, List.map_append, List.sum_append, ih,
        List.map_cons, List.sum_cons]

theorem evaluate_merge_vector :
    ((merge fs).evaluate p).vector = (fs.map fun f => (f.evaluate p).vector).sum := by
  simp only [evaluate_vector]
  exact sum_samples_merge fs p (·.vector)

theorem evaluate_merge_strength :
    ((merge fs).evaluate p).strength = (fs.map fun f => (f.evaluate p).strength).sum := by
  simp only [evaluate_strength]
  exact sum_samples_merge fs p (·.weight)

theorem evaluate_merge_matrix :
    ((merge fs).evaluate p).tensor.matrix =
      (fs.map fun f => (f.evaluate p).tensor.matrix).sum := by
  simp only [evaluate_matrix]
  exact sum_samples_merge fs p (·.fullTensor)

end Sums

/-- **Superposition.**  The contributions of a merged field are those of its fields in order, each
with its index moved past the sources of the earlier fields.  In exact arithmetic its vector,
strength and tensor are the sums of those of its fields, whatever their order. -/
theorem evaluate_merge :
    (∀ {α : Type} [Scalar α] (fs : List (Field α)) (p : Point α),
      ((merge fs).evaluate p).contributions =
        (fs.mapIdx fun k f =>
          (f.evaluate p).contributions.map (Contribution.shift (sourcesBefore fs k))).flatten) ∧
    (∀ (fs : List (Field ℝ)) (p : Point ℝ),
      ((merge fs).evaluate p).vector = Vec.sum (fs.map fun f => (f.evaluate p).vector) ∧
      ((merge fs).evaluate p).strength = Scalar.sum (fs.map fun f => (f.evaluate p).strength) ∧
      ((merge fs).evaluate p).tensor.matrix =
        SymTensor.sum (fs.map fun f => (f.evaluate p).tensor.matrix)) ∧
    (∀ (fs gs : List (Field ℝ)) (p : Point ℝ),
      fs.Perm gs →
        ((merge fs).evaluate p).vector = ((merge gs).evaluate p).vector ∧
        ((merge fs).evaluate p).strength = ((merge gs).evaluate p).strength ∧
        ((merge fs).evaluate p).tensor.matrix = ((merge gs).evaluate p).tensor.matrix) := by
  refine ⟨?_, ?_, ?_⟩
  · intro α _ fs p
    exact contributions_merge fs p
  · intro fs p
    rw [Vec.sum_exact, Scalar.sum_exact, SymTensor.sum_exact]
    exact ⟨evaluate_merge_vector fs p, evaluate_merge_strength fs p, evaluate_merge_matrix fs p⟩
  · intro fs gs p hperm
    simp only [evaluate_merge_vector, evaluate_merge_strength, evaluate_merge_matrix]
    exact ⟨(hperm.map _).sum_eq, (hperm.map _).sum_eq, (hperm.map _).sum_eq⟩

/-- A uniform field that acts in the unit cube only. -/
noncomputable def cubeWind : Field ℝ :=
  .ofSource (.ofModel (.uniform ⟨1, 0, 0⟩) (some (.world ⟨0, 0, 0⟩ ⟨1, 1, 1⟩)))

/-- A uniform field that acts everywhere. -/
noncomputable def openWind : Field ℝ :=
  .ofSource (.ofModel (.uniform ⟨0, 1, 0⟩))

/-- A point outside the cube. -/
noncomputable def outside : Point ℝ :=
  ⟨-1, -1, -1⟩

theorem contributions_cubeWind : (cubeWind.evaluate outside).contributions = [] := by
  have houtside : (Region.world ⟨0, 0, 0⟩ ⟨1, 1, 1⟩).contains outside = false := by
    have hsmall : (softening : ℝ) = 1 / 1000000000 := Scalar.tolerance_exact
    rw [Region.contains, Region.world, Frame.coordinates_world]
    norm_num [Box.contains, Box.spanning, outside, hsmall]
  have hnone : (Source.ofModel (.uniform ⟨1, 0, 0⟩)
      (some (.world ⟨0, 0, 0⟩ ⟨1, 1, 1⟩)) : Source ℝ).sample? outside = none := by
    rw [Source.sample?_exact, if_neg]
    exact Bool.eq_false_iff.mp houtside
  change contributionsFrom outside 0 [Source.ofModel _ _] = []
  rw [contributionsFrom, hnone]
  rfl

theorem contributions_openWind :
    (openWind.evaluate outside).contributions =
      [⟨0, .uniform, ⟨⟨0, 1, 0⟩, (⟨0, 1, 0⟩ : Vec ℝ).length, none⟩⟩] := by
  have hsample : (Source.ofModel (.uniform ⟨0, 1, 0⟩) : Source ℝ).sample? outside =
      some ⟨⟨0, 1, 0⟩, (⟨0, 1, 0⟩ : Vec ℝ).length, none⟩ := by
    rw [Source.sample?_exact]
    rfl
  change contributionsFrom outside 0 [Source.ofModel _] = _
  rw [contributionsFrom, hsample]
  rfl

/-- At a point outside the cube only the wind of everywhere contributes.  Its index counts the
source of the cube where that comes first, and either order gives the same sums. -/
theorem evaluate_merge_winds :
    ((merge [cubeWind, openWind]).evaluate outside).contributions =
      [⟨1, .uniform, ⟨⟨0, 1, 0⟩, (⟨0, 1, 0⟩ : Vec ℝ).length, none⟩⟩] ∧
    ((merge [openWind, cubeWind]).evaluate outside).contributions =
      [⟨0, .uniform, ⟨⟨0, 1, 0⟩, (⟨0, 1, 0⟩ : Vec ℝ).length, none⟩⟩] ∧
    ((merge [cubeWind, openWind]).evaluate outside).vector = ⟨0, 1, 0⟩ ∧
    [cubeWind, openWind].Perm [openWind, cubeWind] ∧
    ((merge [cubeWind, openWind]).evaluate outside).vector =
      ((merge [openWind, cubeWind]).evaluate outside).vector ∧
    ((merge [cubeWind, openWind]).evaluate outside).strength =
      ((merge [openWind, cubeWind]).evaluate outside).strength ∧
    ((merge [cubeWind, openWind]).evaluate outside).tensor.matrix =
      ((merge [openWind, cubeWind]).evaluate outside).tensor.matrix := by
  obtain ⟨hcontributions, hsums, horder⟩ := evaluate_merge
  have hperm : [cubeWind, openWind].Perm [openWind, cubeWind] := List.Perm.swap _ _ _
  refine ⟨?_, ?_, ?_, hperm, horder _ _ outside hperm⟩
  · rw [hcontributions]
    simp only [List.mapIdx_cons, List.mapIdx_nil, contributions_cubeWind, contributions_openWind]
    rfl
  · rw [hcontributions]
    simp only [List.mapIdx_cons, List.mapIdx_nil, contributions_cubeWind, contributions_openWind]
    rfl
  · have hcubeVector : (cubeWind.evaluate outside).vector = Vec.zero := by
      change Vec.sum ((cubeWind.evaluate outside).contributions.map fun c => c.sample.vector) = _
      rw [contributions_cubeWind]
      rfl
    have hopenVector : (openWind.evaluate outside).vector = Vec.zero + ⟨0, 1, 0⟩ := by
      change Vec.sum ((openWind.evaluate outside).contributions.map fun c => c.sample.vector) = _
      rw [contributions_openWind]
      rfl
    rw [(hsums _ outside).1, List.map_cons, List.map_cons, List.map_nil, hcubeVector, hopenVector,
      Vec.sum_exact]
    simp

end Field

end FieldGeometry
