import BlockStep.Fault
import BlockStep.Given
import BlockStep.TickCount

namespace BlockStep

namespace TickCount

def counted (f : Int → Int) (s : Shaped Int) : Except Fault (Shaped Int) :=
  if s.all (0 ≤ ·) then .ok (s.map f) else .error .negativeTicks

def binsOf (s : Shaped Int) : Except Fault (Shaped Int) := counted binOf s

def roundedDown (s : Shaped Int) : Except Fault (Shaped Int) := counted roundDown s

end TickCount

/-- The ticks at which steps are kicked, as words. -/
def kickPoints (starts steps : Shaped Int) : Except Fault (Shaped Int) :=
  Given.zip (fun start step => Word.wrap (kickPoint start step)) starts steps

end BlockStep
