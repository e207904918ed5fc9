import FieldGeometry.Color
import FieldGeometry.Component
import FieldGeometry.Component.Curves
import FieldGeometry.Component.Evaluate
import FieldGeometry.Component.Failure
import FieldGeometry.Component.Fields
import FieldGeometry.Component.Pin
import FieldGeometry.Component.Planes
import FieldGeometry.Curve
import FieldGeometry.Curve.Search
import FieldGeometry.Decimal.Shortest
import FieldGeometry.Dictionary
import FieldGeometry.Engine
import FieldGeometry.Field
import FieldGeometry.Field.Section
import FieldGeometry.Format.Datum
import FieldGeometry.Format.Decode
import FieldGeometry.Format.Encode
import FieldGeometry.Format.Json.Reader
import FieldGeometry.Format.Json.Writer
import FieldGeometry.Format.Report
import FieldGeometry.Frame
import FieldGeometry.Frame.Fit
import FieldGeometry.Frame.Motion
import FieldGeometry.Moment
import FieldGeometry.Point
import FieldGeometry.Proofs.ArcLength
import FieldGeometry.Proofs.CurveComponents
import FieldGeometry.Proofs.CurveOrder
import FieldGeometry.Proofs.CurveSearch
import FieldGeometry.Proofs.Displays
import FieldGeometry.Proofs.DoubleNumbers
import FieldGeometry.Proofs.DoubleRounding
import FieldGeometry.Proofs.Edits
import FieldGeometry.Proofs.EigenAccuracy
import FieldGeometry.Proofs.EvaluationBounds
import FieldGeometry.Proofs.Exact
import FieldGeometry.Proofs.FieldAlgebra
import FieldGeometry.Proofs.FrameAlignment
import FieldGeometry.Proofs.FrameAxes
import FieldGeometry.Proofs.FrameFlips
import FieldGeometry.Proofs.FrameHints
import FieldGeometry.Proofs.FrameSpans
import FieldGeometry.Proofs.FrameTilts
import FieldGeometry.Proofs.FrameTurns
import FieldGeometry.Proofs.HostFormat
import FieldGeometry.Proofs.IdleSources
import FieldGeometry.Proofs.InputForms
import FieldGeometry.Proofs.JacobiInvariant
import FieldGeometry.Proofs.JacobiProgress
import FieldGeometry.Proofs.LeafReadings
import FieldGeometry.Proofs.LeastSquares
import FieldGeometry.Proofs.LineCharges
import FieldGeometry.Proofs.LinearStreamlines
import FieldGeometry.Proofs.MergedInputs
import FieldGeometry.Proofs.NameKeys
import FieldGeometry.Proofs.Perpendiculars
import FieldGeometry.Proofs.PinReadings
import FieldGeometry.Proofs.PlaneCoordinates
import FieldGeometry.Proofs.PlaneDeviation
import FieldGeometry.Proofs.PlaneFeet
import FieldGeometry.Proofs.PlaneFitting
import FieldGeometry.Proofs.PlaneInvariance
import FieldGeometry.Proofs.PointLists
import FieldGeometry.Proofs.Polylines
import FieldGeometry.Proofs.RegionSpans
import FieldGeometry.Proofs.RegistryAliases
import FieldGeometry.Proofs.RegistryHistory
import FieldGeometry.Proofs.RegistrySuggestions
import FieldGeometry.Proofs.RepeatedCorners
import FieldGeometry.Proofs.RigidMotion
import FieldGeometry.Proofs.RoundedArithmetic
import FieldGeometry.Proofs.SearchTrace
import FieldGeometry.Proofs.SectionGrid
import FieldGeometry.Proofs.SectionRectangles
import FieldGeometry.Proofs.SegmentSearch
import FieldGeometry.Proofs.StableOrder
import FieldGeometry.Proofs.StreamlineRuns
import FieldGeometry.Proofs.StreamlineSpeed
import FieldGeometry.Proofs.StreamlineSteps
import FieldGeometry.Proofs.Superposition
import FieldGeometry.Proofs.Tensors
import FieldGeometry.Proofs.UniformStreamlines
import FieldGeometry.Proofs.UnitRescaling
import FieldGeometry.Proofs.Vectors
import FieldGeometry.Proofs.Vortices
import FieldGeometry.Registry
import FieldGeometry.Scalar
import FieldGeometry.Scalar.Double
import FieldGeometry.Segment
import FieldGeometry.Source
import FieldGeometry.Streamline
import FieldGeometry.Tensor
import FieldGeometry.Tensor.Jacobi
import FieldGeometry.Tensor.Principal
import FieldGeometry.Text.Blank
import FieldGeometry.Text.CaseTable
import FieldGeometry.Text.EditDistance
import FieldGeometry.Text.Lowercase
import FieldGeometry.Value
import FieldGeometry.Vec
