import FieldGeometry.Vec

/-!
# Symmetric tensors

Symmetric matrices of three rows, stored by their six independent entries.
-/

namespace FieldGeometry

/-- A symmetric matrix of three rows. -/
structure SymTensor (α : Type) where
  xx : α
  xy : α
  xz : α
  yy : α
  yz : α
  zz : α

namespace SymTensor

variable {α : Type} [Scalar α]

def zero : SymTensor α := ⟨0, 0, 0, 0, 0, 0⟩

/-- The tensor with given diagonal entries and no others. -/
def diagonal (a b c : α) : SymTensor α :=
  ⟨a, 0, 0, b, 0, c⟩

/-- The product of a vector with itself. -/
def outer (v : Vec α) : SymTensor α :=
  ⟨v.x * v.x, v.x * v.y, v.x * v.z, v.y * v.y, v.y * v.z, v.z * v.z⟩

instance : Add (SymTensor α) where
  add a b := ⟨a.xx + b.xx, a.xy + b.xy, a.xz + b.xz, a.yy + b.yy, a.yz + b.yz, a.zz + b.zz⟩

instance : SMul α (SymTensor α) where
  smul s a := ⟨a.xx * s, a.xy * s, a.xz * s, a.yy * s, a.yz * s, a.zz * s⟩

def trace (a : SymTensor α) : α :=
  a.xx + a.yy + a.zz

/-- The tensor with zero for every entry that is not finite. -/
def sanitized (a : SymTensor α) : SymTensor α :=
  let entry (x : α) : α := Scalar.finiteOr x 0
  ⟨entry a.xx, entry a.xy, entry a.xz, entry a.yy, entry a.yz, entry a.zz⟩

def rows (a : SymTensor α) : List (Vec α) :=
  [⟨a.xx, a.xy, a.xz⟩, ⟨a.xy, a.yy, a.yz⟩, ⟨a.xz, a.yz, a.zz⟩]

/-- The sum of a list of tensors, from the left. -/
def sum (as : List (SymTensor α)) : SymTensor α :=
  as.foldl (· + ·) zero

end SymTensor

end FieldGeometry
