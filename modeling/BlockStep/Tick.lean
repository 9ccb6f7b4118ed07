namespace BlockStep

structure Tick where
  epoch : Int
  localTick : Int
deriving DecidableEq, Repr, Inhabited

namespace Tick

def toAbsolute (t : Tick) (timebase : Int) : Int := t.epoch * timebase + t.localTick

/-- The position of an absolute tick; division is floored. -/
def ofAbsolute (value timebase : Int) : Tick := ⟨value.fdiv timebase, value.fmod timebase⟩

/-- As `ofAbsolute`, where an empty epoch has no positions. -/
def ofAbsolute? (value timebase : Int) : Option Tick :=
  if timebase = 0 then none else some (ofAbsolute value timebase)

/-- The same position with its tick rolled into its epoch. -/
def normalized (t : Tick) (timebase : Int) : Tick := ofAbsolute (t.toAbsolute timebase) timebase

instance : LT Tick :=
  ⟨fun s t => s.epoch < t.epoch ∨ s.epoch = t.epoch ∧ s.localTick < t.localTick⟩

instance : LE Tick :=
  ⟨fun s t => s.epoch < t.epoch ∨ s.epoch = t.epoch ∧ s.localTick ≤ t.localTick⟩

instance (s t : Tick) : Decidable (s < t) := inferInstanceAs (Decidable (_ ∨ _ ∧ _))

instance (s t : Tick) : Decidable (s ≤ t) := inferInstanceAs (Decidable (_ ∨ _ ∧ _))

theorem toAbsolute_ofAbsolute (value timebase : Int) :
    (ofAbsolute value timebase).toAbsolute timebase = value := by
  simp only [ofAbsolute, toAbsolute]
  rw [Int.mul_comm]
  exact Int.mul_fdiv_add_fmod value timebase

end Tick

/-- The tick at which a step is kicked, its midpoint. -/
def kickPoint (start step : Int) : Int := start + step / 2

end BlockStep
