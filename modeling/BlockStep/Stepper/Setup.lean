import BlockStep.Clock
import BlockStep.Kick
import BlockStep.Snapshot.Archive

namespace BlockStep

structure Setup (α : Type) where
  config : Config α
  timeline : Timeline α
  kicker : Kicker α
  /-- Where snapshots are written, if they are. -/
  writer : Option SnapshotWriter

namespace Setup

variable {α σ : Type}

/-- The number of bins. -/
def bins (u : Setup α) : Nat := u.config.timeline.bins

def timebase (u : Setup α) : Int := u.config.timeline.timebase

def ofConfig [Scalar α] (c : Config α) (rule : KickRule α) (inTurn : Bool)
    (writer : Option SnapshotWriter) : Act α σ (Setup α) := do
  let t ← c.timeline.clock
  let source ← rule.source c.cosmology t
  pure ⟨c, t, c.kicker source inTurn, writer⟩

end Setup

/-- The writer of a rank under a configuration. -/
def Config.writer {α : Type} (c : Config α) (rank : Int) : SnapshotWriter :=
  ⟨c.output.directory, c.output.format, rank⟩

end BlockStep
