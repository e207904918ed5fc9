import FieldGeometry.Frame
import FieldGeometry.Tensor

/-!
# Source models

The five laws by which a source acts on a point: a point charge, a charge spread along a segment, a
vortex, a pull along a segment, and a uniform vector. Each gives a sample, a vector with a strength;
a line charge also gives the tensor of its action.

No law divides by zero: where a point coincides with a source there is no direction, so the vector
is zero, and only the strength remains.
-/

namespace FieldGeometry

/-- What a source does at a point. -/
structure Sample (α : Type) where
  vector : Vec α
  /-- How strong the action is, also where it has no direction. -/
  strength : α
  /-- The tensor of the action, where the source gives one itself. -/
  tensor : Option (SymTensor α)

namespace Sample

variable {α : Type} [Scalar α]

/-- Both the vector and the strength are finite. -/
def isFinite (s : Sample α) : Bool :=
  s.vector.isFinite && Scalar.isFinite s.strength

def weight (s : Sample α) : α :=
  Scalar.abs s.strength

/-- The tensor of the action: the source's own, or the direction with itself, weighted. -/
def fullTensor (s : Sample α) : SymTensor α :=
  s.tensor.getD (s.weight • SymTensor.outer s.vector.unitOrZero)

end Sample

/-- The term, `10⁻⁹`, that keeps a law finite near its source. -/
def softening {α : Type} [Scalar α] : α :=
  Scalar.ratio 1 1000000000

/-- A charge at a point, whose action falls off with a power of the distance. -/
structure PointCharge (α : Type) where
  position : Point α
  /-- The amount of charge; a negative one attracts. -/
  charge : α
  /-- The power of the distance; a negative one counts as zero. -/
  decay : α

namespace PointCharge

variable {α : Type} [Scalar α]

def sample (c : PointCharge α) (p : Point α) : Sample α :=
  let offset := p - c.position
  let distance := offset.length
  if distance ≤ softening then ⟨Vec.zero, Scalar.abs c.charge, none⟩
  else
    let magnitude := c.charge / Scalar.pow (distance + softening) (Scalar.maxNum c.decay 0)
    ⟨magnitude • (offset / distance), Scalar.abs magnitude, none⟩

end PointCharge

/-- A charge spread evenly along a segment. It acts as equal pieces, each a point charge with an
inverse-square law at the middle of its piece. -/
structure LineCharge (α : Type) where
  segment : Segment α
  /-- The whole amount of charge. -/
  charge : α

namespace LineCharge

variable {α : Type} [Scalar α]

/-- The number of pieces: four to the unit of length, at least 8 and at most 10 000. -/
def pieceCount (c : LineCharge α) : Nat :=
  let estimate := Scalar.round (((4 : Nat) : α) * c.segment.length)
  if Scalar.isFinite estimate && decide (((8 : Nat) : α) < estimate) then
    min (Scalar.toCount estimate) 10000
  else 8

def pieceCharge (c : LineCharge α) : α :=
  c.charge / (c.pieceCount : α)

def pieceCentre (c : LineCharge α) (i : Nat) : Point α :=
  c.segment.pointAt (((i : α) + Scalar.half) / (c.pieceCount : α))

/-- The action of one piece, with its tensor; a piece whose middle is the point itself has no
direction and acts by its strength alone. -/
def pieceSample (c : LineCharge α) (p : Point α) (i : Nat) : Sample α :=
  let offset := p - c.pieceCentre i
  match offset.unit? with
  | none => ⟨Vec.zero, Scalar.abs c.pieceCharge, none⟩
  | some direction =>
    let magnitude := c.pieceCharge / (offset.lengthSq + softening)
    ⟨magnitude • direction, Scalar.abs magnitude,
      some (Scalar.abs magnitude • SymTensor.outer direction)⟩

def pieceSamples (c : LineCharge α) (p : Point α) : List (Sample α) :=
  (List.range c.pieceCount).map (c.pieceSample p)

/-- The action of a line charge: the sum over its pieces. -/
def sample (c : LineCharge α) (p : Point α) : Sample α :=
  let pieces := c.pieceSamples p
  ⟨Vec.sum (pieces.map (·.vector)), Scalar.sum (pieces.map (·.strength)),
    some (SymTensor.sum (pieces.filterMap (·.tensor)))⟩

end LineCharge

/-- A vortex about the normal of a frame. -/
structure Spin (α : Type) where
  /-- The frame about whose normal the vortex turns. -/
  frame : Frame α
  /-- The strength at the axis; a negative one turns the other way. -/
  strength : α
  /-- The distance over which the action falls off; its sign does not matter. -/
  radius : α
  /-- How fast the action falls off; a negative one counts as zero. -/
  decay : α

namespace Spin

variable {α : Type} [Scalar α]

/-- The vector along which the vortex turns at the frame coordinates `x` and `y`. -/
def tangent (s : Spin α) (x y : α) : Vec α :=
  (-y) • s.frame.xAxis + x • s.frame.yAxis

/-- The signed strength at given coordinates: it falls off with the distance from the axis and with
the height over the plane. -/
def magnitudeAt (s : Spin α) (c : Point α) : α :=
  let radius := Scalar.maxNum (Scalar.abs s.radius) softening
  let decay := Scalar.maxNum s.decay 0
  let radial := Scalar.hypot c.x c.y
  let horizontal := Scalar.pow (1 + radial / radius) (-(decay + 1))
  let vertical := 1 / (1 + Scalar.abs c.z / radius)
  s.strength * horizontal * vertical

/-- The action of a vortex; on its axis it has none. -/
def sample (s : Spin α) (p : Point α) : Sample α :=
  let c := s.frame.coordinates p
  match (s.tangent c.x c.y).unit? with
  | none => ⟨Vec.zero, 0, none⟩
  | some direction =>
    let magnitude := s.magnitudeAt c
    ⟨magnitude • direction, Scalar.abs magnitude, none⟩

end Spin

namespace Segment

variable {α : Type} [Scalar α]

/-- The action of a segment that pulls along itself and pushes away half as much. -/
def sample (s : Segment α) (p : Point α) : Sample α :=
  let offset := p - s.nearest p
  let falloff := 1 / (1 + offset.lengthSq)
  let vector := falloff • s.direction.unitOrZero + (Scalar.half * falloff) • offset.unitOrZero
  ⟨vector, vector.length, none⟩

end Segment

/-- The law by which a source acts. -/
inductive Model (α : Type) where
  | pointCharge (c : PointCharge α)
  | lineCharge (c : LineCharge α)
  /-- A vortex. -/
  | spin (s : Spin α)
  /-- A pull along a segment with a push away from it. -/
  | segmentForce (s : Segment α)
  /-- The same vector everywhere. -/
  | uniform (v : Vec α)

namespace Model

inductive Kind where
  | pointCharge
  | lineCharge
  /-- A vortex. -/
  | spin
  /-- A pull along a segment with a push away from it. -/
  | segmentForce
  /-- The same vector everywhere. -/
  | uniform
deriving DecidableEq, Repr

/-- What a kind of law is called. -/
def Kind.title : Kind → String
  | .pointCharge => "point charge"
  | .lineCharge => "line charge"
  | .spin => "spin force"
  | .segmentForce => "segment force"
  | .uniform => "uniform force"

variable {α : Type} [Scalar α]

def kind : Model α → Kind
  | .pointCharge _ => .pointCharge
  | .lineCharge _ => .lineCharge
  | .spin _ => .spin
  | .segmentForce _ => .segmentForce
  | .uniform _ => .uniform

def sample : Model α → Point α → Sample α
  | .pointCharge c, p => c.sample p
  | .lineCharge c, p => c.sample p
  | .spin s, p => s.sample p
  | .segmentForce s, p => s.sample p
  | .uniform v, _ => ⟨v, v.length, none⟩

end Model

end FieldGeometry
