import BlockStep.Power
import BlockStep.Word

namespace BlockStep.TickCount

/-- `n` to 53 significant binary digits; a tie goes to the even neighbour. -/
def toDouble (n : Nat) : Nat :=
  let unit := pow2 (n.log2 - 52)
  let q := n / unit
  let r := n % unit
  if 2 * r < unit ∨ 2 * r = unit ∧ q % 2 = 0 then q * unit else (q + 1) * unit

/-- The exponent `e` of a positive double in `[2 ^ (e - 1), 2 ^ e)`. -/
def binaryExponent (n : Nat) : Nat := if n = 0 then 0 else n.log2 + 1

/-- The greatest bin whose cadence fits into `ticks`; a step without length goes to bin 0. -/
def binOf (ticks : Int) : Int :=
  if ticks ≤ 0 then 0
  else
    let n := ticks.toNat
    let b := min (binaryExponent (toDouble n) - 1) 62
    -- rounding to a double can carry a value just below `2 ^ b` up to it
    if n < pow2 b then b - 1 else b

/-- The step length of a bin; bin 0 has none, and lengths are words. -/
def cadence (bin : Int) : Int :=
  if bin ≤ 0 then 0
  else if bin < 63 then pow2 bin.toNat
  else if bin = 63 then Word.least
  else 0

/-- The greatest power of two that fits into `ticks`, zero for zero. -/
def roundDown (ticks : Int) : Int := if ticks ≤ 0 then 0 else pow2 (binOf ticks).toNat

def isPowerOrZero (ticks : Int) : Bool :=
  0 ≤ ticks && (ticks.toNat &&& (ticks.toNat - 1)) == 0

@[simp] theorem cadence_zero : cadence 0 = 0 := rfl

theorem cadence_of_pos {bin : Int} (h : 0 < bin) (h' : bin < 63) :
    cadence bin = pow2 bin.toNat := by
  rw [cadence, if_neg (by omega), if_pos h']

end BlockStep.TickCount
