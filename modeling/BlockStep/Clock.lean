import BlockStep.Act
import BlockStep.Config
import BlockStep.KickSource

namespace BlockStep

variable {α σ : Type} [Scalar α]

def Timeline.announce (begin max : α) (outputs : List α) (timebase : Int) :
    Act α σ (Timeline α) := do
  if ¬ HasOrder begin max then Act.fail .timelineOrder
  let ignored := outer begin max outputs
  if !ignored.isEmpty then Act.tell (.outputsIgnored begin max ignored)
  let t ← Act.lift (make begin max outputs timebase)
  Act.tell (.timelineMade t.epochs begin max timebase)
  pure t

def KickTable.announce (c : CosmologyConfig α) (t : Timeline α) (samples : Int) :
    Act α σ (KickTable α) := do
  let k ← Act.lift (make c t samples)
  Act.tell (.tableMade k.grid.size (k.grid.getD 0 0.0) (k.grid.getD (k.grid.size - 1) 0.0))
  pure k

/-- The clock of a configuration. -/
def TimelineConfig.clock (c : TimelineConfig α) : Act α σ (Timeline α) :=
  Timeline.announce c.timeBegin c.timeMax c.outputs c.timebase

/-- Where the factors of a run come from. -/
inductive KickRule (α : Type) where
  | linear (perTick lengthPerTick : α)
  | table (samples : Int)

def KickRule.source (r : KickRule α) (c : CosmologyConfig α) (t : Timeline α) :
    Act α σ (KickSource α) :=
  match r with
  | .linear perTick lengthPerTick => pure (.linear perTick lengthPerTick)
  | .table samples => do pure ((← KickTable.announce c t samples).source t)

end BlockStep
