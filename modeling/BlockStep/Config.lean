import BlockStep.Scalar
import BlockStep.TickCount
import BlockStep.Transport

namespace BlockStep

structure TimelineConfig (α : Type) where
  /-- Number of bins; an epoch spans `2 ^ (bins - 1)` ticks. -/
  bins : Nat
  timeBegin : α
  timeMax : α
  /-- Scale factors of intermediate outputs, each of which closes an epoch. -/
  outputs : List α

namespace TimelineConfig

def timebase {α : Type} (c : TimelineConfig α) : Int := pow2 (c.bins - 1)

end TimelineConfig

structure CosmologyConfig (α : Type) where
  omega0 : α
  omegaLambda : α
  omegaBaryon : α
  hubble : α
  gravity : α
  boxSize : α

namespace CosmologyConfig

variable {α : Type} [Scalar α]

instance : Inhabited (CosmologyConfig α) := ⟨⟨0.2814, 0.7186, 0.0464, 0.1, 43007.1, 25000.0⟩⟩

def omegaCdm (c : CosmologyConfig α) : α := c.omega0 - c.omegaBaryon

end CosmologyConfig

structure SofteningConfig (α : Type) where
  comoving : Vector α 6
  maxPhysical : Vector α 6

instance {α : Type} [Scalar α] : Inhabited (SofteningConfig α) :=
  ⟨⟨.replicate 6 1.0, .replicate 6 0.5⟩⟩

structure StepConfig (α : Type) where
  /-- Accuracy of the gravity criterion. -/
  accuracy : α
  courant : α
  /-- Least step in `log a`. -/
  minSize : α
  /-- Greatest long-range step in `log a`. -/
  maxSize : α
  /-- Without tree gravity every particle takes the long-range step. -/
  treeGravity : Bool
  /-- All particles take the least step of any. -/
  equalSteps : Bool
  /-- Gas is softened by its smoothing length. -/
  adaptiveSoftening : Bool

instance {α : Type} [Scalar α] : Inhabited (StepConfig α) :=
  ⟨⟨0.02, 0.15, 0.0, 0.1, true, false, false⟩⟩

structure MeshConfig (α : Type) where
  /-- Scale of the force split in mesh cells. -/
  asmth : α
  /-- Mesh cells along a side. -/
  cells : Int
  /-- Allowed displacement in one long-range step. -/
  displacement : α
  /-- A kind that does not limit the long-range step. -/
  fastKind : Option Int

instance {α : Type} [Scalar α] : Inhabited (MeshConfig α) := ⟨⟨1.25, 128, 0.2, some 2⟩⟩

structure GasConfig (α : Type) where
  maxSpeed : α
  /-- Least specific energy; zero for none. -/
  minEnergy : α

instance {α : Type} [Scalar α] : Inhabited (GasConfig α) := ⟨⟨3.0e5, 0.0⟩⟩

structure Features where
  blackHoles : Bool
  starFormation : Bool
  makeGlass : Bool
deriving Inhabited

structure DebugConfig where
  /-- Each kick has to continue from the last one. -/
  checkKicks : Bool
deriving Inhabited

/-- The two file formats of snapshots. -/
inductive SnapshotFormat where
  | binary
  | json
deriving DecidableEq, Inhabited

namespace SnapshotFormat

def name : SnapshotFormat → String
  | binary => "pickle"
  | json => "json"

/-- The ending of a file's name. -/
def ending : SnapshotFormat → String
  | binary => ".pkl"
  | json => ".json"

end SnapshotFormat

structure OutputConfig where
  directory : String
  format : SnapshotFormat
  writesHistory : Bool
  quiet : Bool

instance : Inhabited OutputConfig := ⟨⟨"out", .binary, true, false⟩⟩

structure Config (α : Type) where
  timeline : TimelineConfig α
  cosmology : CosmologyConfig α
  softening : SofteningConfig α
  step : StepConfig α
  mesh : MeshConfig α
  gas : GasConfig α
  features : Features
  debug : DebugConfig
  transport : Transport
  output : OutputConfig

end BlockStep
