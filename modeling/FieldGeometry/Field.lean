import FieldGeometry.Dictionary
import FieldGeometry.Source
import FieldGeometry.Tensor.Principal

/-!
# Fields

A field is a list of sources, each of which may act in a region only. Its value at a point sums the
actions of the sources whose region holds the point, leaving out those whose action there is not
finite. The parts are kept in a list (`Field.contributions`), of which every figure of the
evaluation is a sum.
-/

namespace FieldGeometry

/-- A box whose faces follow the axes of a frame. -/
structure Region (α : Type) where
  /-- The frame whose axes the box follows. -/
  frame : Frame α
  /-- The box, in coordinates of the frame. -/
  box : Box α

namespace Region

variable {α : Type} [Scalar α]

/-- The box between two corners along the coordinate axes. -/
def world (a b : Point α) : Region α :=
  ⟨.world, .spanning a b⟩

/-- The box between two corners along the axes of a frame. -/
def inFrame (frame : Frame α) (a b : Point α) : Region α :=
  ⟨frame, .spanning (frame.coordinates a) (frame.coordinates b)⟩

/-- The point lies in the box, or at most `softening` outside a face. -/
def contains (r : Region α) (p : Point α) : Bool :=
  r.box.contains softening (r.frame.coordinates p)

end Region

/-- Texts under keys, which a host attaches and nothing here reads. -/
abbrev Metadata := Dictionary String

/-- A law that acts in a region, or everywhere when it has none. -/
structure Source (α : Type) where
  model : Model α
  region : Option (Region α)
  metadata : Metadata

namespace Source

variable {α : Type} [Scalar α]

/-- A law without anything attached. -/
def ofModel (model : Model α) (region : Option (Region α) := none) : Source α :=
  ⟨model, region, .empty⟩

def actsAt (s : Source α) (p : Point α) : Bool :=
  match s.region with
  | none => true
  | some region => region.contains p

/-- The action at a point, if the source acts there and its action is finite. -/
def sample? (s : Source α) (p : Point α) : Option (Sample α) :=
  if s.actsAt p then
    let sample := s.model.sample p
    if sample.isFinite then some sample else none
  else none

end Source

/-- A list of sources that act together. -/
structure Field (α : Type) where
  sources : List (Source α)
  /-- The regions that the field declares; they do not bound what the sources do. -/
  regions : List (Region α)
  metadata : Metadata

/-- The part of one source in the value of a field at a point. -/
structure Contribution (α : Type) where
  /-- The position of the source in the field. -/
  index : Nat
  kind : Model.Kind
  sample : Sample α

/-- The value of a field at a point. -/
structure Evaluation (α : Type) where
  point : Point α
  /-- The sum of the vectors. -/
  vector : Vec α
  /-- The length of the sum. -/
  magnitude : α
  /-- The unit vector of the sum, or the zero vector where the sum is negligible. -/
  direction : Vec α
  /-- The sum of the sizes of the strengths. -/
  strength : α
  /-- The sum of the tensors, with its principal directions. -/
  tensor : PrincipalTensor α
  /-- The parts that were summed, in the order of their sources. -/
  contributions : List (Contribution α)

namespace Evaluation

variable {α : Type} [Scalar α]

/-- The cosine of the angle between the field and a normal; `0` where either has no direction. -/
def alignment (e : Evaluation α) (normal : Vec α) : α :=
  e.direction.dot normal.unitOrZero

end Evaluation

namespace Field

variable {α : Type} [Scalar α]

def empty : Field α := ⟨[], [], .empty⟩

/-- The field of a single source; the region of the source is declared. -/
def ofSource (s : Source α) : Field α :=
  ⟨[s], s.region.toList, .empty⟩

def isEmpty (f : Field α) : Bool :=
  f.sources.isEmpty

/-- The parts of sources at a point, counted from a given index. -/
def contributionsFrom (p : Point α) : Nat → List (Source α) → List (Contribution α)
  | _, [] => []
  | i, s :: rest =>
    match s.sample? p with
    | none => contributionsFrom p (i + 1) rest
    | some sample => ⟨i, s.model.kind, sample⟩ :: contributionsFrom p (i + 1) rest

/-- The parts of the sources that act at a point and whose action there is finite. -/
def contributions (f : Field α) (p : Point α) : List (Contribution α) :=
  contributionsFrom p 0 f.sources

/-- The value that a list of contributions adds up to. -/
def superpose (p : Point α) (parts : List (Contribution α)) : Evaluation α :=
  let vector := Vec.sum (parts.map (·.sample.vector))
  let magnitude := vector.length
  { point := p
    vector := vector
    magnitude := magnitude
    direction := if softening < magnitude then vector / magnitude else Vec.zero
    strength := Scalar.sum (parts.map (·.sample.weight))
    tensor := (SymTensor.sum (parts.map (·.sample.fullTensor))).principal
    contributions := parts }

def evaluate (f : Field α) (p : Point α) : Evaluation α :=
  superpose p (f.contributions p)

/-- Adds the sources, regions and metadata of another field after its own. -/
def append (f g : Field α) : Field α :=
  ⟨f.sources ++ g.sources, f.regions ++ g.regions, f.metadata.extend g.metadata⟩

/-- All sources of a list of fields as one field; of metadata under one key the last counts. -/
def merge (fs : List (Field α)) : Field α :=
  fs.foldl append empty

/-- One field for each source, with the regions and metadata of the whole. -/
def split (f : Field α) : List (Field α) :=
  f.sources.map fun s => { f with sources := [s] }

end Field

end FieldGeometry
