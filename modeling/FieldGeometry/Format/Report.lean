import FieldGeometry.Curve.Search
import FieldGeometry.Field.Section
import FieldGeometry.Format.Decode
import FieldGeometry.Format.Encode
import FieldGeometry.Frame.Fit
import FieldGeometry.Streamline

/-!
# Reports

Results of the geometry as data for a host: what an evaluation, a fit, a search or a
diagonalisation found, and the settings of those that have any.
-/

namespace FieldGeometry

variable {α : Type}

/-- What is absent is nothing. -/
def Datum.ofOption {β : Type} (encode : β → Datum α) : Option β → Datum α
  | none => .null
  | some x => encode x

def SymTensor.encode (m : SymTensor α) : Datum α :=
  .record [("xx", .scalar m.xx), ("xy", .scalar m.xy), ("xz", .scalar m.xz), ("yy", .scalar m.yy),
    ("yz", .scalar m.yz), ("zz", .scalar m.zz)]

/-- A tensor from a list of its six entries. -/
def SymTensor.decodeEntries? [Scalar α] : Datum α → Option (SymTensor α)
  | .list [xx, xy, xz, yy, yz, zz] => do
    return ⟨← xx.scalar?, ← xy.scalar?, ← xz.scalar?, ← yy.scalar?, ← yz.scalar?, ← zz.scalar?⟩
  | _ => none

def PrincipalDirection.encode (d : PrincipalDirection α) : Datum α :=
  .record [("magnitude", .scalar d.magnitude), ("direction", d.direction.encode)]

def PrincipalTensor.encode (m : PrincipalTensor α) : Datum α :=
  .record [("matrix", m.matrix.encode),
    ("principal", .list (m.principal.map PrincipalDirection.encode)),
    ("total_magnitude", .scalar m.totalMagnitude)]

def Contribution.encode (c : Contribution α) : Datum α :=
  .record [("index", .int c.index), ("kind", .text c.kind.code),
    ("vector", c.sample.vector.encode), ("strength", .scalar c.sample.strength)]

def Evaluation.encode (e : Evaluation α) : Datum α :=
  .record [("point", e.point.encode), ("vector", e.vector.encode),
    ("magnitude", .scalar e.magnitude), ("direction", e.direction.encode),
    ("strength", .scalar e.strength), ("tensor", e.tensor.encode),
    ("contributions", .list (e.contributions.map Contribution.encode))]

def Sample.encode (s : Sample α) : Datum α :=
  .record [("vector", s.vector.encode), ("strength", .scalar s.strength),
    ("tensor", .ofOption SymTensor.encode s.tensor)]

def Jacobi.EigenPair.encode (p : EigenPair α) : Datum α :=
  .record [("value", .scalar p.value), ("vector", p.vector.encode)]

def Jacobi.Run.encode (r : Run α) : Datum α :=
  .record [("pairs", .list (r.pairs.map EigenPair.encode)), ("iterations", .int r.rotations),
    ("converged", .bool r.converged)]

def Jacobi.Options.encode (o : Options α) : Datum α :=
  .record [("max_iterations", .int o.maxRotations), ("tolerance", .scalar o.eps)]

def PlaneFit.encode (f : PlaneFit α) : Datum α :=
  .record [("frame", f.frame.encode), ("deviation", .scalar f.deviation)]

def Datum.pair (p : α × α) : Datum α :=
  .list [.scalar p.1, .scalar p.2]

/-- Two scalars from a list of exactly two. -/
def Datum.pair? [Scalar α] : Datum α → Option (α × α)
  | .list [a, b] => do return (← a.scalar?, ← b.scalar?)
  | _ => none

def Section.encode (s : Section α) : Datum α :=
  .record [("frame", s.frame.encode), ("u", .pair s.u), ("v", .pair s.v)]

def Section.decode? [Scalar α] (d : Datum α) : Option (Section α) :=
  match d.parts ["frame", "u", "v"] with
  | some [some frame, some u, some v] => do return ⟨← Frame.decode? frame, ← u.pair?, ← v.pair?⟩
  | _ => none

def Grid.encode (g : Grid) : Datum α :=
  .record [("u_count", .int g.uCount), ("v_count", .int g.vCount)]

/-- A grid from its counts, taken as they are. -/
def Grid.decode? (d : Datum α) : Option Grid :=
  match d.parts ["u_count", "v_count"] with
  | some [some u, some v] => do return ⟨← u.count?, ← v.count?⟩
  | _ => none

def Placement.encode [Scalar α] (q : Placement α) : Datum α :=
  .record [("t", .scalar q.t), ("point", q.point.encode), ("distance", .scalar q.distance),
    ("distance_sq", .scalar q.distanceSq)]

def Search.Options.encode (o : Search.Options) : Datum α :=
  .record [("sample_count", .int o.sampleCount), ("refinement_rounds", .int o.rounds)]

/-- The name of an order in the host's format. -/
def Streamline.Order.code : Order → String
  | .euler => "euler"
  | .midpoint => "midpoint"
  | .threeSample => "threeSample"
  | .rungeKutta4 => "rungeKutta4"

def Streamline.Order.ofCode? : String → Option Order
  | "euler" => some .euler
  | "midpoint" => some .midpoint
  | "threeSample" => some .threeSample
  | "rungeKutta4" => some .rungeKutta4
  | _ => none

def Streamline.Options.encode (o : Options α) : Datum α :=
  .record [("steps", .int o.steps), ("step_size", .scalar o.stepSize),
    ("order", .text o.order.code)]

end FieldGeometry
