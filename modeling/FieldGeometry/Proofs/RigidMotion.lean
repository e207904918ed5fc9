import FieldGeometry.Streamline
import FieldGeometry.Proofs.Points
import FieldGeometry.Proofs.Superposition
import Mathlib.LinearAlgebra.UnitaryGroup

/-!
# Rigid motions

Nothing in the geometry of fields depends on the coordinate axes.  A rigid motion, that is an
orthogonal matrix followed by a translation, moves the sources of a field and the frames of their
regions; evaluating the moved field at a moved point then gives the moved value, and a streamline of
the moved field is the moved streamline.  Reflections are included.

**Layers.**  The scalar product is unchanged, hence lengths and all decisions that compare them with
a threshold (`length_vec`, `unit?_vec`).  The coordinates of a moved point in a moved frame are
those of the point in the frame (`coordinates_frame`), hence the regions and the vortices.  Each of
the five laws is equivariant, and so is each sum over actions.  For streamlines one step is
equivariant (`step?_moved`), and the run follows by induction on the number of steps.
-/

namespace FieldGeometry

open Matrix

attribute [ext] Sample

/-- An orthogonal matrix, then a translation. -/
structure RigidMotion where
  turn : Matrix.orthogonalGroup (Fin 3) ℝ
  shift : Vec ℝ

namespace RigidMotion

variable (g : RigidMotion)

def matrix : Matrix (Fin 3) (Fin 3) ℝ :=
  g.turn

theorem transpose_mul_matrix : g.matrixᵀ * g.matrix = 1 :=
  (Matrix.mem_orthogonalGroup_iff' (Fin 3) ℝ).mp g.turn.2

/-- A moved vector: the matrix applied to its coordinates. -/
def vec : Vec ℝ →ₗ[ℝ] Vec ℝ :=
  Vec.ofMatrix g.matrix

/-- A moved point. -/
noncomputable def point (p : Point ℝ) : Point ℝ :=
  Point.ofVec (g.vec p.toVec) + g.shift

/-- A tensor in the moved axes: its matrix between the turn and the transposed turn. -/
def tensor : SymTensor ℝ →+ SymTensor ℝ where
  toFun a := .ofMatrix (g.matrix * a.toMatrix * g.matrixᵀ)
  map_zero' := by
    rw [SymTensor.toMatrix_zero, Matrix.mul_zero, Matrix.zero_mul]
    rfl
  map_add' a b := by
    rw [SymTensor.toMatrix_add, Matrix.mul_add, Matrix.add_mul]
    rfl

noncomputable def segment (s : Segment ℝ) : Segment ℝ :=
  ⟨g.point s.start, g.point s.stop⟩

noncomputable def frame (f : Frame ℝ) : Frame ℝ :=
  ⟨g.point f.origin, g.vec f.xAxis, g.vec f.yAxis, g.vec f.zAxis⟩

/-- A moved region keeps its box, which is written in the coordinates of its frame. -/
noncomputable def region (r : Region ℝ) : Region ℝ :=
  { r with frame := g.frame r.frame }

noncomputable def pointCharge (c : PointCharge ℝ) : PointCharge ℝ :=
  { c with position := g.point c.position }

noncomputable def lineCharge (c : LineCharge ℝ) : LineCharge ℝ :=
  { c with segment := g.segment c.segment }

noncomputable def spin (s : Spin ℝ) : Spin ℝ :=
  { s with frame := g.frame s.frame }

noncomputable def model : Model ℝ → Model ℝ
  | .pointCharge c => .pointCharge (g.pointCharge c)
  | .lineCharge c => .lineCharge (g.lineCharge c)
  | .spin s => .spin (g.spin s)
  | .segmentForce s => .segmentForce (g.segment s)
  | .uniform v => .uniform (g.vec v)

noncomputable def source (s : Source ℝ) : Source ℝ :=
  { s with model := g.model s.model, region := s.region.map g.region }

noncomputable def field (f : Field ℝ) : Field ℝ :=
  { f with sources := f.sources.map g.source, regions := f.regions.map g.region }

noncomputable def sample (s : Sample ℝ) : Sample ℝ :=
  ⟨g.vec s.vector, s.strength, s.tensor.map g.tensor⟩

noncomputable def contribution (c : Contribution ℝ) : Contribution ℝ :=
  { c with sample := g.sample c.sample }

section Vectors

variable (v w : Vec ℝ)

/-- The scalar product does not depend on the axes. -/
@[simp] theorem dot_vec : (g.vec v).dot (g.vec w) = v.dot w := by
  rw [← Vec.coords_dotProduct, vec, Vec.coords_ofMatrix, Vec.coords_ofMatrix, dotProduct_mulVec,
    ← vecMul_transpose, vecMul_vecMul, transpose_mul_matrix, vecMul_one, Vec.coords_dotProduct]

@[simp] theorem length_vec : (g.vec v).length = v.length := by
  rw [Vec.length_eq, dot_vec, Vec.length_eq]

/-- A moved vector carries the moved direction. -/
@[simp] theorem unit?_vec : (g.vec v).unit? = v.unit?.map g.vec := by
  rcases le_or_gt v.length Scalar.tolerance with hle | hlt
  · rw [Vec.unit?_of_le hle, Vec.unit?_of_le (by rwa [length_vec])]
    rfl
  · rw [Vec.unit?_of_lt hlt, Vec.unit?_of_lt (by rwa [length_vec]), length_vec, Option.map_some,
      map_smul]

@[simp] theorem unitOrZero_vec : (g.vec v).unitOrZero = g.vec v.unitOrZero := by
  rw [Vec.unitOrZero, Vec.unitOr, unit?_vec, Vec.unitOrZero, Vec.unitOr, Vec.zero_eq]
  conv_lhs => rw [← map_zero g.vec]
  exact Option.getD_map _ _ _

end Vectors

section Points

variable (p q : Point ℝ) (v : Vec ℝ)

@[simp] theorem point_sub : g.point p - g.point q = g.vec (p - q) := by
  rw [point, point, Point.add_vec_sub_add_vec, Point.sub_eq_toVec_sub p q, map_sub]
  rfl

theorem point_add : g.point (p + v) = g.point p + g.vec v := by
  have hadd : (p + v).toVec = p.toVec + v := by rfl
  unfold point
  rw [hadd, map_add]
  ext <;> simp [Point.ofVec, Point.add_vec_eq] <;> ring

theorem point_lerp (t : ℝ) : g.point (p.lerp q t) = (g.point p).lerp (g.point q) t := by
  rw [Point.lerp_eq, point_add, map_smul, Point.lerp_eq, point_sub]

@[simp] theorem direction_segment (s : Segment ℝ) :
    (g.segment s).direction = g.vec s.direction :=
  g.point_sub s.stop s.start

/-- Coordinates in a frame do not change when point and frame move together. -/
@[simp] theorem coordinates_frame (f : Frame ℝ) :
    (g.frame f).coordinates (g.point p) = f.coordinates p := by
  simp only [Frame.coordinates, frame, point_sub, dot_vec]

@[simp] theorem contains_region (r : Region ℝ) :
    (g.region r).contains (g.point p) = r.contains p := by
  simp only [Region.contains, region, coordinates_frame]

/-- The nearest point of a moved segment is the moved nearest point. -/
theorem nearest_segment (s : Segment ℝ) :
    (g.segment s).nearest (g.point p) = g.point (s.nearest p) := by
  have hfraction : (g.segment s).nearestFraction (g.point p) = s.nearestFraction p := by
    have hstart : g.point p - (g.segment s).start = g.vec (p - s.start) :=
      g.point_sub p s.start
    simp only [Segment.nearestFraction, hstart, direction_segment, Vec.lengthSq_eq, dot_vec]
  simp only [Segment.nearest, direction_segment, Vec.lengthSq_eq, dot_vec, hfraction]
  split_ifs with h
  · rfl
  · exact (g.point_lerp s.start s.stop _).symm

end Points

section Tensors

variable (a : SymTensor ℝ) (s : ℝ) (v : Vec ℝ)

/-- The moved matrix is symmetric again, so the tensor stores all of it. -/
theorem toMatrix_tensor : (g.tensor a).toMatrix = g.matrix * a.toMatrix * g.matrixᵀ := by
  apply SymTensor.toMatrix_ofMatrix
  rw [transpose_mul, transpose_mul, transpose_transpose, SymTensor.toMatrix_transpose,
    Matrix.mul_assoc]

theorem tensor_smul : g.tensor (s • a) = s • g.tensor a := by
  apply SymTensor.toMatrix_injective
  rw [toMatrix_tensor, SymTensor.toMatrix_smul, SymTensor.toMatrix_smul, toMatrix_tensor,
    Matrix.mul_smul, Matrix.smul_mul]

theorem tensor_outer : g.tensor (.outer v) = .outer (g.vec v) := by
  apply SymTensor.toMatrix_injective
  have hcoords : (g.vec v).coords = g.matrix *ᵥ v.coords := Vec.coords_ofMatrix _ _
  rw [toMatrix_tensor, SymTensor.toMatrix_outer, SymTensor.toMatrix_outer, hcoords, mul_vecMulVec,
    vecMulVec_mul, vecMul_transpose]

theorem trace_tensor : (g.tensor a).trace = a.trace := by
  rw [← SymTensor.toMatrix_trace, toMatrix_tensor, trace_mul_cycle, transpose_mul_matrix,
    Matrix.one_mul, SymTensor.toMatrix_trace]

end Tensors

section Laws

variable (p : Point ℝ)

theorem sample_pointCharge (c : PointCharge ℝ) :
    (g.pointCharge c).sample (g.point p) = g.sample (c.sample p) := by
  have hoffset : g.point p - (g.pointCharge c).position = g.vec (p - c.position) :=
    g.point_sub p c.position
  unfold PointCharge.sample
  simp only [hoffset, length_vec]
  split_ifs with h
  · simp [sample, pointCharge]
  · simp [sample, pointCharge]

theorem sample_spin (s : Spin ℝ) :
    (g.spin s).sample (g.point p) = g.sample (s.sample p) := by
  have hcoordinates : (g.spin s).frame.coordinates (g.point p) = s.frame.coordinates p :=
    g.coordinates_frame p s.frame
  have htangent : ∀ x y, (g.spin s).tangent x y = g.vec (s.tangent x y) := by
    intro x y
    rw [Spin.tangent, Spin.tangent, map_add, map_smul, map_smul]
    rfl
  unfold Spin.sample
  simp only [hcoordinates, htangent, unit?_vec]
  cases (s.tangent (s.frame.coordinates p).x (s.frame.coordinates p).y).unit? with
  | none =>
      simp [sample]
  | some u =>
      simp [sample, Spin.magnitudeAt, spin]

theorem sample_segment (s : Segment ℝ) :
    (g.segment s).sample (g.point p) = g.sample (s.sample p) := by
  unfold Segment.sample
  simp only [nearest_segment, point_sub, direction_segment, unitOrZero_vec, Vec.lengthSq_eq,
    dot_vec, ← map_smul, ← map_add, length_vec]
  rfl

theorem pieceCount_lineCharge (c : LineCharge ℝ) :
    (g.lineCharge c).pieceCount = c.pieceCount := by
  have hlength : (g.lineCharge c).segment.length = c.segment.length := by
    rw [Segment.length, lineCharge, direction_segment, length_vec]
    rfl
  rw [LineCharge.pieceCount, LineCharge.pieceCount, hlength]

theorem pieceSample_lineCharge (c : LineCharge ℝ) (i : ℕ) :
    (g.lineCharge c).pieceSample (g.point p) i = g.sample (c.pieceSample p i) := by
  have hcharge : (g.lineCharge c).pieceCharge = c.pieceCharge := by
    rw [LineCharge.pieceCharge, pieceCount_lineCharge]
    rfl
  have hcentre : (g.lineCharge c).pieceCentre i = g.point (c.pieceCentre i) := by
    rw [LineCharge.pieceCentre, pieceCount_lineCharge]
    exact (g.point_lerp _ _ _).symm
  unfold LineCharge.pieceSample
  simp only [hcharge, hcentre, point_sub, unit?_vec, Vec.lengthSq_eq, dot_vec]
  cases (p - c.pieceCentre i).unit? with
  | none =>
      simp [sample]
  | some u =>
      simp [sample, tensor_smul, tensor_outer]

theorem sample_lineCharge (c : LineCharge ℝ) :
    (g.lineCharge c).sample (g.point p) = g.sample (c.sample p) := by
  have hpieces : (g.lineCharge c).pieceSamples (g.point p) = (c.pieceSamples p).map g.sample := by
    rw [LineCharge.pieceSamples, LineCharge.pieceSamples, pieceCount_lineCharge, List.map_map]
    exact List.map_congr_left fun i _ => g.pieceSample_lineCharge p c i
  unfold LineCharge.sample
  simp only [hpieces, Vec.sum_exact, SymTensor.sum_exact, sample, Option.map_some, map_list_sum,
    List.map_map, List.filterMap_map, List.map_filterMap]
  rfl

/-- Each law acts on a moved point as its action is moved. -/
theorem sample_model (m : Model ℝ) :
    (g.model m).sample (g.point p) = g.sample (m.sample p) := by
  cases m with
  | pointCharge c =>
      exact g.sample_pointCharge p c
  | lineCharge c =>
      exact g.sample_lineCharge p c
  | spin s =>
      exact g.sample_spin p s
  | segmentForce s =>
      exact g.sample_segment p s
  | uniform v =>
      simp [model, Model.sample, sample]

end Laws

section Fields

variable (p : Point ℝ) (f : Field ℝ)

theorem actsAt_source (s : Source ℝ) : (g.source s).actsAt (g.point p) = s.actsAt p := by
  unfold Source.actsAt source
  cases s.region with
  | none =>
      rfl
  | some r =>
      exact g.contains_region p r

theorem sample?_source (s : Source ℝ) :
    (g.source s).sample? (g.point p) = (s.sample? p).map g.sample := by
  rw [Source.sample?_exact, Source.sample?_exact, actsAt_source]
  split_ifs with h
  · rw [Option.map_some, ← sample_model]
    rfl
  · rfl

theorem contributionsFrom_sources (i : ℕ) (ss : List (Source ℝ)) :
    Field.contributionsFrom (g.point p) i (ss.map g.source) =
      (Field.contributionsFrom p i ss).map g.contribution := by
  induction ss generalizing i with
  | nil =>
      rfl
  | cons s ss ih =>
      have hkind : (g.source s).model.kind = s.model.kind := by
        unfold source
        cases s.model <;> rfl
      rw [List.map_cons, Field.contributionsFrom, Field.contributionsFrom, sample?_source, hkind]
      cases s.sample? p with
      | none =>
          exact ih (i + 1)
      | some a =>
          rw [Option.map_some, ih, List.map_cons]
          rfl

theorem contributions_field :
    ((g.field f).evaluate (g.point p)).contributions =
      (f.evaluate p).contributions.map g.contribution :=
  g.contributionsFrom_sources p 0 f.sources

/-- What is summed at a moved point are the moved actions. -/
theorem samples_field :
    (g.field f).sources.filterMap (·.sample? (g.point p)) =
      (f.sources.filterMap (·.sample? p)).map g.sample := by
  have hsources : (g.field f).sources = f.sources.map g.source := rfl
  rw [hsources, List.filterMap_map, List.map_filterMap]
  simp only [Function.comp_def, sample?_source]

theorem vector_field :
    ((g.field f).evaluate (g.point p)).vector = g.vec (f.evaluate p).vector := by
  rw [Field.evaluate_vector, Field.evaluate_vector, samples_field, map_list_sum, List.map_map,
    List.map_map]
  rfl

theorem magnitude_field :
    ((g.field f).evaluate (g.point p)).magnitude = (f.evaluate p).magnitude := by
  show ((g.field f).evaluate (g.point p)).vector.length = (f.evaluate p).vector.length
  rw [vector_field, length_vec]

theorem direction_field :
    ((g.field f).evaluate (g.point p)).direction = g.vec (f.evaluate p).direction := by
  have hdirection : ∀ (f : Field ℝ) (p : Point ℝ), (f.evaluate p).direction =
      if softening < (f.evaluate p).magnitude then
        (f.evaluate p).vector / (f.evaluate p).magnitude
      else Vec.zero := fun _ _ => rfl
  rw [hdirection, hdirection, magnitude_field, vector_field]
  split_ifs with h
  · rw [Vec.div_eq_smul, Vec.div_eq_smul, map_smul]
  · rw [Vec.zero_eq, map_zero]

theorem strength_field :
    ((g.field f).evaluate (g.point p)).strength = (f.evaluate p).strength := by
  rw [Field.evaluate_strength, Field.evaluate_strength, samples_field, List.map_map]
  rfl

theorem fullTensor_sample (a : Sample ℝ) :
    (g.sample a).fullTensor = g.tensor a.fullTensor := by
  unfold Sample.fullTensor
  cases h : a.tensor with
  | none =>
      simp [sample, h, tensor_smul, tensor_outer, Sample.weight]
  | some t =>
      simp [sample, h]

theorem matrix_field :
    ((g.field f).evaluate (g.point p)).tensor.matrix =
      g.tensor (f.evaluate p).tensor.matrix := by
  rw [Field.evaluate_matrix, Field.evaluate_matrix, samples_field, map_list_sum, List.map_map,
    List.map_map]
  simp only [Function.comp_def, fullTensor_sample]

theorem totalMagnitude_field :
    ((g.field f).evaluate (g.point p)).tensor.totalMagnitude =
      (f.evaluate p).tensor.totalMagnitude := by
  have htotal : ∀ (f : Field ℝ) (p : Point ℝ), (f.evaluate p).tensor.totalMagnitude =
      √(max (f.evaluate p).tensor.matrix.trace 0) := by
    intro f p
    show Scalar.sqrt (Scalar.maxNum (f.evaluate p).tensor.matrix.sanitized.trace 0) = _
    rw [SymTensor.sanitized_exact, Scalar.maxNum_exact, Scalar.sqrt_exact]
  rw [htotal, htotal, matrix_field, trace_tensor]

end Fields

section Streamlines

open Streamline

/-- A direction of points and the direction it becomes when points and vectors are moved. -/
def Carries (d d' : Point ℝ → Option (Vec ℝ)) : Prop :=
  ∀ p, d' (g.point p) = (d p).map g.vec

theorem directionAt?_carries (f : Field ℝ) :
    g.Carries f.directionAt? (g.field f).directionAt? := by
  intro p
  unfold Field.directionAt?
  simp only [magnitude_field, direction_field]
  split_ifs with h
  · rfl
  · rw [Option.map_some, map_smul]

variable {g}

/-- If one step carries, so does every number of steps. -/
theorem follow_carried {step step' : Point ℝ → Option (Point ℝ)}
    (hstep : ∀ p, step' (g.point p) = (step p).map g.point)
    (n : ℕ) (p : Point ℝ) :
    follow step' n (g.point p) = (follow step n p).map g.point := by
  induction n generalizing p with
  | zero =>
      rfl
  | succ n ih =>
      rw [follow, follow, hstep]
      cases step p with
      | none =>
          rfl
      | some q =>
          rw [Option.map_some, List.map_cons, ← ih]

variable {d d' : Point ℝ → Option (Vec ℝ)} (hd : g.Carries d d')
include hd

/-- A later sample of a step, with the sample before it as its fallback. -/
theorem Carries.sampled (p : Point ℝ) (t : ℝ) (k j : Vec ℝ) :
    (d' (g.point p + t • g.vec k)).getD (g.vec j) = g.vec ((d (p + t • k)).getD j) := by
  rw [← map_smul, ← point_add, hd, Option.getD_map]

theorem Carries.slope (h : ℝ) (p : Point ℝ) (k : Vec ℝ) (order : Order) :
    slope d' h (g.point p) (g.vec k) order = g.vec (slope d h p k order) := by
  cases order with
  | euler =>
      rfl
  | midpoint =>
      simp only [Streamline.slope, hd.sampled, map_smul, map_add]
  | threeSample =>
      simp only [Streamline.slope, hd.sampled, Vec.div_eq_smul, map_smul, map_add]
  | rungeKutta4 =>
      simp only [Streamline.slope, hd.sampled, Vec.div_eq_smul, map_smul, map_add]

theorem Carries.advance? (h : ℝ) (order : Order) (p : Point ℝ) :
    advance? d' h order (g.point p) = (Streamline.advance? d h order p).map g.point := by
  unfold Streamline.advance?
  rw [hd p, Option.map_map, Option.map_map]
  congr 1
  funext k
  show g.point p + h • Streamline.slope d' h (g.point p) (g.vec k) order =
    g.point (p + h • Streamline.slope d h p k order)
  rw [hd.slope, ← map_smul, ← point_add]

theorem Carries.step? (h : ℝ) (order : Order) (p : Point ℝ) :
    step? d' h order (g.point p) = (Streamline.step? d h order p).map g.point := by
  have hstalls : ∀ q, stalls (g.point p) (g.point q) = stalls p q := by
    intro q
    simp only [stalls, Point.distanceSq, point_sub, Vec.lengthSq_eq, dot_vec]
  unfold Streamline.step?
  rw [hd.advance?]
  cases Streamline.advance? d h order p with
  | none =>
      rfl
  | some q =>
      simp only [Option.map_some, hstalls]
      split_ifs with hq
      · rfl
      · rfl

theorem Carries.trace (seed : Point ℝ) (options : Options ℝ) :
    trace d' (g.point seed) options = (Streamline.trace d seed options).map g.point := by
  rw [Streamline.trace, Streamline.trace, List.map_cons,
    follow_carried (hd.step? options.stride options.order)]

end Streamlines

/-- **Fields do not depend on the axes.**  At a moved point a moved field has the moved value: the
vectors are turned, the numbers stay, and the matrix is conjugated by the turn.  Its streamlines are
the moved streamlines, point by point. -/
theorem evaluate_moved (g : RigidMotion) (f : Field ℝ) :
    (∀ p : Point ℝ,
      ((g.field f).evaluate (g.point p)).vector = g.vec (f.evaluate p).vector ∧
      ((g.field f).evaluate (g.point p)).direction = g.vec (f.evaluate p).direction ∧
      ((g.field f).evaluate (g.point p)).magnitude = (f.evaluate p).magnitude ∧
      ((g.field f).evaluate (g.point p)).strength = (f.evaluate p).strength ∧
      ((g.field f).evaluate (g.point p)).contributions =
        (f.evaluate p).contributions.map g.contribution ∧
      ((g.field f).evaluate (g.point p)).tensor.matrix.toMatrix =
        g.matrix * (f.evaluate p).tensor.matrix.toMatrix * g.matrixᵀ ∧
      ((g.field f).evaluate (g.point p)).tensor.totalMagnitude =
        (f.evaluate p).tensor.totalMagnitude) ∧
    (∀ (seed : Point ℝ) (options : Streamline.Options ℝ),
      (g.field f).streamline (g.point seed) options =
        (f.streamline seed options).map g.point) := by
  constructor
  · intro p
    refine ⟨g.vector_field p f, g.direction_field p f, g.magnitude_field p f,
      g.strength_field p f, g.contributions_field p f, ?_, g.totalMagnitude_field p f⟩
    rw [matrix_field, toMatrix_tensor]
  · intro seed options
    exact (g.directionAt?_carries f).trace seed options

end RigidMotion

end FieldGeometry
