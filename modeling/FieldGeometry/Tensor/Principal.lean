import FieldGeometry.Tensor.Jacobi

/-!
# Principal directions

A tensor together with its principal directions: the eigenvectors, ordered by the size of their
eigenvalues, and one magnitude for the whole.
-/

namespace FieldGeometry

/-- A direction in which a tensor acts by a factor. -/
structure PrincipalDirection (α : Type) where
  magnitude : α
  /-- The unit vector, or the zero vector where there is no direction. -/
  direction : Vec α

/-- A tensor with its principal directions. -/
structure PrincipalTensor (α : Type) where
  matrix : SymTensor α
  /-- The principal directions, the one with the largest factor first. -/
  principal : List (PrincipalDirection α)
  /-- The square root of the trace, of which a negative one counts as zero. -/
  totalMagnitude : α

def SymTensor.principal {α : Type} [Scalar α] (m : SymTensor α) : PrincipalTensor α where
  matrix := m
  principal := m.diagonalize.byMagnitude.map fun pair => ⟨pair.value, pair.vector.unitOrZero⟩
  totalMagnitude := Scalar.sqrt (Scalar.maxNum m.sanitized.trace 0)

end FieldGeometry
