import FieldGeometry.Tensor

/-!
# Diagonalisation by plane rotations

Jacobi's method. Each step rotates the plane of the two axes whose off-diagonal entry is largest, so
that this entry vanishes, and turns the basis along. The run ends when every off-diagonal entry is
below a tolerance, or when its budget of rotations is spent; the basis then diagonalises the tensor
as far as it got.
-/

namespace FieldGeometry

namespace Jacobi

variable {α : Type} [Scalar α]

/-- The plane that a rotation turns, named by its two axes. -/
inductive Plane where
  | xy
  | xz
  | yz
deriving DecidableEq

/-- The off-diagonal entry of a plane. -/
def Plane.entry (m : SymTensor α) : Plane → α
  | .xy => m.xy
  | .xz => m.xz
  | .yz => m.yz

/-- The plane with the largest off-diagonal entry, the earlier one winning a tie. -/
def pivot (m : SymTensor α) : Plane :=
  let first : Plane := if Scalar.abs m.xy < Scalar.abs m.xz then .xz else .xy
  if Scalar.abs (first.entry m) < Scalar.abs m.yz then .yz else first

/-- A rotation of a plane, by its cosine and sine. -/
structure Turn (α : Type) where
  cos : α
  sin : α

namespace Turn

/-- The rotation that makes the entry `apq` of a plane with diagonal entries `app` and `aqq`
vanish. -/
def annihilating (app aqq apq : α) : Turn α :=
  let angle := Scalar.half * Scalar.atan2 (Scalar.two * apq) (aqq - app)
  ⟨Scalar.cos angle, Scalar.sin angle⟩

/-- The first diagonal entry after the rotation. -/
def firstDiagonal (t : Turn α) (app aqq apq : α) : α :=
  t.cos * t.cos * app - Scalar.two * t.sin * t.cos * apq + t.sin * t.sin * aqq

/-- The second diagonal entry after the rotation. -/
def secondDiagonal (t : Turn α) (app aqq apq : α) : α :=
  t.sin * t.sin * app + Scalar.two * t.sin * t.cos * apq + t.cos * t.cos * aqq

/-- The entry of the remaining axis and the first of the plane after the rotation. -/
def firstMixed (t : Turn α) (akp akq : α) : α :=
  t.cos * akp - t.sin * akq

/-- The entry of the remaining axis and the second of the plane after the rotation. -/
def secondMixed (t : Turn α) (akp akq : α) : α :=
  t.cos * akq + t.sin * akp

/-- The first basis vector of the plane after the rotation. -/
def firstVector (t : Turn α) (p q : Vec α) : Vec α :=
  t.cos • p - t.sin • q

/-- The second basis vector of the plane after the rotation. -/
def secondVector (t : Turn α) (p q : Vec α) : Vec α :=
  t.sin • p + t.cos • q

end Turn

/-- A tensor on its way to diagonal form, written in the basis that the rotations have led to. -/
structure State (α : Type) where
  tensor : SymTensor α
  first : Vec α
  second : Vec α
  third : Vec α

/-- The tensor itself, in the basis of the coordinate axes. -/
def State.initial (m : SymTensor α) : State α :=
  ⟨m, Vec.basisX, Vec.basisY, Vec.basisZ⟩

/-- Rotates one plane so that its off-diagonal entry vanishes. -/
def State.rotate (s : State α) : Plane → State α
  | .xy =>
    let m := s.tensor
    let t := Turn.annihilating m.xx m.yy m.xy
    { tensor :=
        { xx := t.firstDiagonal m.xx m.yy m.xy, xy := 0, xz := t.firstMixed m.xz m.yz,
          yy := t.secondDiagonal m.xx m.yy m.xy, yz := t.secondMixed m.xz m.yz, zz := m.zz }
      first := t.firstVector s.first s.second
      second := t.secondVector s.first s.second
      third := s.third }
  | .xz =>
    let m := s.tensor
    let t := Turn.annihilating m.xx m.zz m.xz
    { tensor :=
        { xx := t.firstDiagonal m.xx m.zz m.xz, xy := t.firstMixed m.xy m.yz, xz := 0,
          yy := m.yy, yz := t.secondMixed m.xy m.yz, zz := t.secondDiagonal m.xx m.zz m.xz }
      first := t.firstVector s.first s.third
      second := s.second
      third := t.secondVector s.first s.third }
  | .yz =>
    let m := s.tensor
    let t := Turn.annihilating m.yy m.zz m.yz
    { tensor :=
        { xx := m.xx, xy := t.firstMixed m.xy m.xz, xz := t.secondMixed m.xy m.xz,
          yy := t.firstDiagonal m.yy m.zz m.yz, yz := 0, zz := t.secondDiagonal m.yy m.zz m.yz }
      first := s.first
      second := t.firstVector s.second s.third
      third := t.secondVector s.second s.third }

/-- One step: the rotation of the plane with the largest off-diagonal entry. -/
def State.step (s : State α) : State α :=
  s.rotate (pivot s.tensor)

/-- The largest off-diagonal entry is below the tolerance. -/
def State.isDiagonal (eps : α) (s : State α) : Bool :=
  decide (Scalar.abs ((pivot s.tensor).entry s.tensor) < eps)

/-- Where a run ended. -/
structure Run (α : Type) where
  state : State α
  /-- The number of rotations made. -/
  rotations : Nat
  /-- The tensor is diagonal within the tolerance. -/
  converged : Bool

/-- Steps until the tensor is diagonal within `eps`, or for as many rotations as the budget allows;
`done` counts the rotations made before. -/
def runFrom (eps : α) : Nat → Nat → State α → Run α
  | 0, done, s => ⟨s, done, s.isDiagonal eps⟩
  | budget + 1, done, s =>
    if s.isDiagonal eps then ⟨s, done, true⟩
    else runFrom eps budget (done + 1) s.step

/-- How many rotations a run may make, and when a tensor counts as diagonal. -/
structure Options (α : Type) where
  maxRotations : Nat
  eps : α

/-- Thirty-two rotations and the tolerance for eigenvalues. -/
def Options.standard : Options α :=
  ⟨32, Scalar.eigenTolerance⟩

/-- An approximate eigenvalue with a unit vector for it. -/
structure EigenPair (α : Type) where
  value : α
  vector : Vec α

/-- The eigenvalues and eigenvectors that a run found, in the order of the axes. -/
def Run.pairs (r : Run α) : List (EigenPair α) :=
  [⟨r.state.tensor.xx, r.state.first⟩, ⟨r.state.tensor.yy, r.state.second⟩,
    ⟨r.state.tensor.zz, r.state.third⟩]

/-- The pairs by the size of the eigenvalue, the largest first. -/
def Run.byMagnitude (r : Run α) : List (EigenPair α) :=
  r.pairs.mergeSort fun a b => Scalar.precedes (Scalar.abs b.value) (Scalar.abs a.value)

/-- The pairs by eigenvalue, the least first. -/
def Run.ascending (r : Run α) : List (EigenPair α) :=
  r.pairs.mergeSort fun a b => Scalar.precedes a.value b.value

end Jacobi

/-- Diagonalises a tensor, entries that are not finite counting as zero. -/
def SymTensor.diagonalize {α : Type} [Scalar α] (m : SymTensor α)
    (options : Jacobi.Options α := .standard) : Jacobi.Run α :=
  Jacobi.runFrom options.eps options.maxRotations 0 (.initial m.sanitized)

end FieldGeometry
