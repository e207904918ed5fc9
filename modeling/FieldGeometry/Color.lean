import FieldGeometry.Scalar

/-!
# Colours

Colours of three channels between `0` and `1`.
-/

namespace FieldGeometry

/-- A colour; one that was given from outside may hold any channels. -/
structure Color (α : Type) where
  r : α
  g : α
  b : α

namespace Color

variable {α : Type} [Scalar α]

/-- The colour with each channel held between `0` and `1`. -/
def clamped (r g b : α) : Color α :=
  ⟨Scalar.clampFinite r 0 1, Scalar.clampFinite g 0 1, Scalar.clampFinite b 0 1⟩

/-- The mixture of two colours: the first at factor `0`, the second at `1`. -/
def mix (c d : Color α) (factor : α) : Color α :=
  let t := Scalar.clampFinite factor 0 1
  clamped (c.r + (d.r - c.r) * t) (c.g + (d.g - c.g) * t) (c.b + (d.b - c.b) * t)

end Color

end FieldGeometry
