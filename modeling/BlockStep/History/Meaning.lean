import BlockStep.Document.Print

namespace BlockStep.History

structure Meaning where
  name : String
  unit : String
  definition : String

/-- The columns of a run's history in their order. -/
def meanings : List Meaning :=
  [⟨"cycle", "count", "Index of the scheduler cycle, starting at 0"⟩,
    ⟨"epoch", "count", "Snapshot interval of the synchronisation point"⟩,
    ⟨"local_tick", "tick", "Offset of the synchronisation point inside its epoch"⟩,
    ⟨"absolute_tick", "tick", "epoch * timebase + local_tick"⟩,
    ⟨"scale_factor", "dimensionless", "Scale factor at the synchronisation point"⟩,
    ⟨"num_active", "count", "Local particles in active bins after the rebuild"⟩,
    ⟨"force_update_count", "count", "Sum of the bin counts over active bins"⟩,
    ⟨"pm_start", "tick", "Start of the long-range step after the cycle"⟩,
    ⟨"pm_step", "tick", "Length of the long-range step after the cycle"⟩,
    ⟨"n_bins_occupied", "count", "Bins holding at least one local particle"⟩,
    ⟨"min_bin", "bin", "Lowest occupied bin (-1 when empty)"⟩,
    ⟨"max_bin", "bin", "Highest occupied bin (-1 when empty)"⟩,
    ⟨"active_binmask", "bitmask", "Bit b set when bin b is active"⟩,
    ⟨"phase", "category", "Stepper phase at the end of the cycle"⟩]

def usualNames : List String := meanings.map (·.name)

/-- The meanings of those columns that have one. -/
def meaningsOf (names : List String) : List Meaning :=
  names.filterMap fun name => meanings.find? (·.name == name)

/-- The units of columns as JSON. -/
def unitsText (names : List String) : String :=
  Value.jsonTexts ((meaningsOf names).map fun m => (m.name, m.unit))

def definitionsOf (names : List String) : Keyed String :=
  Keyed.sorted ((meaningsOf names).map fun m => (m.name, m.definition))

end BlockStep.History
