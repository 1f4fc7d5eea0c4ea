import ConicScaling.Cone
import ConicScaling.Cone.Block
import ConicScaling.Cone.Build
import ConicScaling.Cone.Rectify
import ConicScaling.Cone.Rescale
import ConicScaling.DataMatrix
import ConicScaling.Decimal.Digits
import ConicScaling.Decimal.Notation
import ConicScaling.Diagonal
import ConicScaling.Equilibrate
import ConicScaling.Event
import ConicScaling.Fault
import ConicScaling.Focus
import ConicScaling.Introsort
import ConicScaling.Limiter
import ConicScaling.Operand
import ConicScaling.Operand.Build
import ConicScaling.Operand.Intake
import ConicScaling.Problem
import ConicScaling.Reverse
import ConicScaling.RowRange
import ConicScaling.Scalar
import ConicScaling.Scalar.Double
import ConicScaling.Settings
import ConicScaling.Storage
import ConicScaling.Storage.Canonical
import ConicScaling.Storage.Symmetry
import ConicScaling.Storage.Triplets
import ConicScaling.Summation
import ConicScaling.Text.Numeral
import ConicScaling.Value
import ConicScaling.Workspace
import ConicScaling.Proofs.Agreement
import ConicScaling.Proofs.Exact
import ConicScaling.Proofs.Products
import ConicScaling.Proofs.Stage
import ConicScaling.Proofs.Passes
import ConicScaling.Proofs.Values
import ConicScaling.Proofs.Placement
import ConicScaling.Proofs.Rescaling
import ConicScaling.Proofs.Rectification
import ConicScaling.Proofs.Nesting
import ConicScaling.Proofs.Symmetry
import ConicScaling.Proofs.Forward
import ConicScaling.Proofs.Outcome
import ConicScaling.Proofs.Weights
import ConicScaling.Proofs.Composition
import ConicScaling.Proofs.Transform
import ConicScaling.Proofs.Norms
import ConicScaling.Proofs.Corrections
import ConicScaling.Proofs.FactorBounds
import ConicScaling.Proofs.Convergence
import ConicScaling.Proofs.Backward
import ConicScaling.Proofs.RoundTrip
import ConicScaling.Proofs.Optimality
import ConicScaling.Proofs.Atomicity
import ConicScaling.Proofs.Intake
import ConicScaling.Proofs.SetUp
import ConicScaling.Proofs.Partition
import ConicScaling.Proofs.Layouts
import ConicScaling.Proofs.Independence
import ConicScaling.Proofs.Evenness
import ConicScaling.Proofs.Checks
import ConicScaling.Proofs.Calls
import ConicScaling.Proofs.Lifecycle
import ConicScaling.Proofs.Validation
import ConicScaling.Proofs.Pattern
import ConicScaling.Proofs.Resubmission
import ConicScaling.Proofs.Continuation
import ConicScaling.Proofs.Dependence
import ConicScaling.Proofs.Extended
import ConicScaling.Proofs.Feasibility
import ConicScaling.Proofs.Indices
import ConicScaling.Proofs.Denotation
import ConicScaling.Proofs.CanonicalStorage
import ConicScaling.Proofs.CostNormalisation
import ConicScaling.Proofs.Relabelling
import ConicScaling.Proofs.Doubles
import ConicScaling.Proofs.NormKernels
import ConicScaling.Proofs.DiagonalProducts
import ConicScaling.Proofs.SymmetricPart
import ConicScaling.Proofs.Volumes
import ConicScaling.Proofs.Absorption
import ConicScaling.Proofs.Propagation
import ConicScaling.Proofs.Limits
import ConicScaling.Proofs.WarmStarts
import ConicScaling.Proofs.NoPasses
import ConicScaling.Proofs.UnitalDoubles
import ConicScaling.Proofs.Telemetry
import ConicScaling.Proofs.Sides
