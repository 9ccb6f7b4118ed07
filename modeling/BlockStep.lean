import BlockStep.Act
import BlockStep.Alarm
import BlockStep.Arguments
import BlockStep.Assign
import BlockStep.Background
import BlockStep.Clock
import BlockStep.Collective
import BlockStep.Config
import BlockStep.Config.Check
import BlockStep.Config.Complaint
import BlockStep.Config.Document
import BlockStep.Config.Lax
import BlockStep.Criterion
import BlockStep.Document
import BlockStep.Document.Print
import BlockStep.Document.Read
import BlockStep.DryRun
import BlockStep.DryRun.Output
import BlockStep.Event
import BlockStep.Fault
import BlockStep.Given
import BlockStep.Glass
import BlockStep.History
import BlockStep.History.Document
import BlockStep.History.Meaning
import BlockStep.Instant
import BlockStep.Keyed
import BlockStep.Kick
import BlockStep.Kick.Kernel
import BlockStep.KickSource
import BlockStep.Kind
import BlockStep.Main
import BlockStep.MeshStep
import BlockStep.Override
import BlockStep.Particle
import BlockStep.Peers
import BlockStep.Power
import BlockStep.Proofs.Abort
import BlockStep.Proofs.Agreement
import BlockStep.Proofs.Alignment
import BlockStep.Proofs.Alike
import BlockStep.Proofs.Allotment
import BlockStep.Proofs.Alone
import BlockStep.Proofs.Always
import BlockStep.Proofs.AppliedOverrides
import BlockStep.Proofs.Approach
import BlockStep.Proofs.Archives
import BlockStep.Proofs.Arrival
import BlockStep.Proofs.Bookkeeping
import BlockStep.Proofs.Census
import BlockStep.Proofs.Columns
import BlockStep.Proofs.Course
import BlockStep.Proofs.Cycle
import BlockStep.Proofs.Degenerate
import BlockStep.Proofs.Desire
import BlockStep.Proofs.Displacement
import BlockStep.Proofs.Does
import BlockStep.Proofs.Endings
import BlockStep.Proofs.Epochs
import BlockStep.Proofs.EqualSteps
import BlockStep.Proofs.EvenClock
import BlockStep.Proofs.Exact
import BlockStep.Proofs.Extended
import BlockStep.Proofs.FileNames
import BlockStep.Proofs.Fleet
import BlockStep.Proofs.Frame
import BlockStep.Proofs.GasBounds
import BlockStep.Proofs.Growth
import BlockStep.Proofs.Halves
import BlockStep.Proofs.Heating
import BlockStep.Proofs.Impulse
import BlockStep.Proofs.Interpolation
import BlockStep.Proofs.Joint
import BlockStep.Proofs.Kernels
import BlockStep.Proofs.KickFactors
import BlockStep.Proofs.LargestMeshStep
import BlockStep.Proofs.Layout
import BlockStep.Proofs.Ledger
import BlockStep.Proofs.Listed
import BlockStep.Proofs.Lockstep
import BlockStep.Proofs.MaskBits
import BlockStep.Proofs.Meeting
import BlockStep.Proofs.MeshBoundary
import BlockStep.Proofs.MeshLength
import BlockStep.Proofs.MeshLimit
import BlockStep.Proofs.Migration
import BlockStep.Proofs.Momentum
import BlockStep.Proofs.NextDue
import BlockStep.Proofs.Occupancy
import BlockStep.Proofs.OnSchedule
import BlockStep.Proofs.OneRank
import BlockStep.Proofs.Outset
import BlockStep.Proofs.Overrides
import BlockStep.Proofs.Phases
import BlockStep.Proofs.Placement
import BlockStep.Proofs.Prediction
import BlockStep.Proofs.Progress
import BlockStep.Proofs.Rational
import BlockStep.Proofs.RecordedMasks
import BlockStep.Proofs.Restored
import BlockStep.Proofs.Round
import BlockStep.Proofs.RowLog
import BlockStep.Proofs.Selection
import BlockStep.Proofs.Signs
import BlockStep.Proofs.Slot
import BlockStep.Proofs.Spread
import BlockStep.Proofs.StepBounds
import BlockStep.Proofs.Stranding
import BlockStep.Proofs.Summary
import BlockStep.Proofs.Tiling
import BlockStep.Proofs.Together
import BlockStep.Proofs.Turnover
import BlockStep.Proofs.WordKicks
import BlockStep.Proofs.WordPowers
import BlockStep.Proofs.WordTicks
import BlockStep.Proofs.WrittenOverrides
import BlockStep.Proofs.WrittenValues
import BlockStep.Registry
import BlockStep.Registry.Moves
import BlockStep.Report
import BlockStep.Scalar
import BlockStep.Settings
import BlockStep.Shaped
import BlockStep.Snapshot
import BlockStep.Snapshot.Archive
import BlockStep.Snapshot.Document
import BlockStep.Stepper
import BlockStep.Stepper.Setup
import BlockStep.Store.Column
import BlockStep.Store.Document
import BlockStep.Store.Given
import BlockStep.Sync
import BlockStep.Text.Binary
import BlockStep.Text.Character
import BlockStep.Text.Digit
import BlockStep.Text.Lines
import BlockStep.Text.Numeral
import BlockStep.Text.Path
import BlockStep.Text.Quoted
import BlockStep.Text.Real
import BlockStep.Tick
import BlockStep.TickCount
import BlockStep.TickCount.Rows
import BlockStep.Timeline
import BlockStep.Transport
import BlockStep.Vec3
import BlockStep.Word
import BlockStep.Yaml.Block
import BlockStep.Yaml.Flow
import BlockStep.Yaml.Line
import BlockStep.Yaml.Node
import BlockStep.Yaml.Quoted
import BlockStep.Yaml.Scalar
