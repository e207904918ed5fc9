import FieldGeometry.Component.Evaluate
import FieldGeometry.Registry

/-!
# Evaluating by name

What a host asks for: the outputs of the component under a key. Either the key leads nowhere, or the
component fails, which the wording of the error tells apart.
-/

namespace FieldGeometry

/-- Why a host gets no outputs. -/
inductive EngineError where
  /-- The registry has no such component. -/
  | configuration (fault : Registry.Fault)
  /-- The component has no outputs for the inputs. -/
  | component (c : Component) (failure : Failure)
deriving DecidableEq, Repr

def EngineError.message : EngineError → String
  | .configuration fault => fault.message
  | .component c failure => c.title ++ ": " ++ failure.message

namespace Registry

variable {α δ : Type} [Scalar α]

/-- The outputs of the component under a key. -/
def evaluate (distance : String → String → Nat) (r : Registry) (key : String)
    (inputs : List (Value α δ)) : Except EngineError (Outputs α δ) :=
  match r.require distance key with
  | .error fault => .error (.configuration fault)
  | .ok c =>
    match c.evaluate inputs with
    | .error failure => .error (.component c failure)
    | .ok outputs => .ok outputs

end Registry

end FieldGeometry
