import Mathlib.Algebra.Order.Field.Rat
import Mathlib.Analysis.SpecialFunctions.Pow.Real
import BlockStep.Proofs.Momentum

namespace BlockStep

/-- Scalars that are the numbers of an ordered field. -/
class ExactScalar (α : Type) extends Scalar α, Field α, LinearOrder α, IsStrictOrderedRing α where
  beq_iff : ∀ x y : α, (x == y) ↔ x = y
  ofInt_eq : ∀ i : Int, Scalar.ofInt i = (i : α)
  ofScientific_eq : ∀ (m : Nat) (s : Bool) (e : Nat),
    (@OfScientific.ofScientific α Scalar.toOfScientific m s e : α) =
      ((OfScientific.ofScientific m s e : ℚ) : α)
  log_lt_log : ∀ x y : α, 0 < x → x < y → Scalar.log x < Scalar.log y
  pow_pos : ∀ x y : α, 0 < x → 0 < Scalar.pow x y
  floor_eq : ∀ x : α, ∃ i : Int, Scalar.floor x = (i : α)

/-- The root of a number that is not negative is exact. -/
class Scalar.HasRoots (α : Type) [ExactScalar α] : Prop where
  sqrt_nonneg : ∀ x : α, 0 ≤ Scalar.sqrt x
  sqrt_mul_self : ∀ x : α, 0 ≤ x → Scalar.sqrt x * Scalar.sqrt x = x

/-- Numbers are cut to whole ones exactly. -/
class Scalar.HasWholes (α : Type) [ExactScalar α] : Prop where
  floor_le : ∀ x : α, Scalar.floor x ≤ x
  lt_floor_add_one : ∀ x : α, x < Scalar.floor x + 1
  trunc_intCast : ∀ i : Int, Scalar.trunc (i : α) = i

/-- The circle constant is a positive number. -/
class Scalar.HasPi (α : Type) [ExactScalar α] : Prop where
  pi_pos : (0 : α) < Scalar.pi

/-- The exponential is positive. -/
class Scalar.HasExp (α : Type) [ExactScalar α] : Prop where
  exp_pos : ∀ x : α, 0 < Scalar.exp x

/-- The cube root of a number that is not negative is exact. -/
class Scalar.HasCubeRoots (α : Type) [ExactScalar α] : Prop where
  cubeRoot_nonneg : ∀ x : α, 0 ≤ x → 0 ≤ Scalar.pow x (1.0 / 3.0)
  cubeRoot_pow : ∀ x : α, 0 ≤ x → Scalar.pow x (1.0 / 3.0) ^ 3 = x

/-- Products do not depend on the order of their factors. -/
class Scalar.IsCommutative (α : Type) [Scalar α] : Prop where
  mul_comm : ∀ x y : α, x * y = y * x

instance : ExactScalar Rat where
  __ := (inferInstance : Scalar Rat)
  __ := (inferInstance : Field Rat)
  __ := (inferInstance : LinearOrder Rat)
  __ := (inferInstance : IsStrictOrderedRing Rat)
  beq_iff _ _ := beq_iff_eq
  ofInt_eq _ := rfl
  ofScientific_eq _ _ _ := rfl
  log_lt_log _ _ _ h := sub_lt_sub_right h 1
  pow_pos x y h := by
    change 0 < if y.den = 1 then x ^ y.num else 1
    split
    · exact zpow_pos h _
    · exact one_pos
  floor_eq x := ⟨x.floor, rfl⟩

instance : Scalar.HasWholes Rat where
  floor_le := Rat.floor_le
  lt_floor_add_one x := by
    change x < (x.floor : Rat) + 1
    exact_mod_cast Rat.lt_floor_add_one x
  trunc_intCast := Int.tdiv_one

instance : Scalar.HasPi Rat := ⟨by decide +kernel⟩

noncomputable instance : Scalar ℝ where
  decideLt := inferInstance
  decideLe := inferInstance
  beq x y := decide (x = y)
  ofScientific m s e := ((OfScientific.ofScientific m s e : ℚ) : ℝ)
  ofInt i := i
  floor x := ⌊x⌋
  trunc x := if 0 ≤ x then ⌊x⌋ else ⌈x⌉
  sqrt := Real.sqrt
  exp := Real.exp
  log := Real.log
  pow := (· ^ ·)
  pi := Real.pi

noncomputable instance : ExactScalar ℝ where
  __ := (inferInstance : Scalar ℝ)
  __ := (inferInstance : Field ℝ)
  __ := (inferInstance : LinearOrder ℝ)
  __ := (inferInstance : IsStrictOrderedRing ℝ)
  beq_iff _ _ := decide_eq_true_iff
  ofInt_eq _ := rfl
  ofScientific_eq _ _ _ := rfl
  log_lt_log _ _ h h' := Real.log_lt_log h h'
  pow_pos _ _ h := Real.rpow_pos_of_pos h _
  floor_eq x := ⟨⌊x⌋, rfl⟩

instance : Scalar.HasRoots ℝ where
  sqrt_nonneg := Real.sqrt_nonneg
  sqrt_mul_self _ := Real.mul_self_sqrt

instance : Scalar.HasWholes ℝ where
  floor_le := Int.floor_le
  lt_floor_add_one := Int.lt_floor_add_one
  trunc_intCast i := by
    change (if (0 : ℝ) ≤ i then ⌊(i : ℝ)⌋ else ⌈(i : ℝ)⌉) = i
    rw [Int.floor_intCast, Int.ceil_intCast, ite_self]

instance : Scalar.HasPi ℝ := ⟨Real.pi_pos⟩

instance : Scalar.HasExp ℝ := ⟨Real.exp_pos⟩

namespace ExactScalar

variable {α : Type} [ExactScalar α]

@[simp] theorem zero_eq : (@OfScientific.ofScientific α Scalar.toOfScientific 0 true 1) = 0 := by
  rw [ofScientific_eq]
  norm_num

@[simp] theorem half_eq :
    (@OfScientific.ofScientific α Scalar.toOfScientific 5 true 1) = 1 / 2 := by
  rw [ofScientific_eq]
  norm_num

@[simp] theorem one_eq : (@OfScientific.ofScientific α Scalar.toOfScientific 10 true 1) = 1 := by
  rw [ofScientific_eq]
  norm_num

theorem ofScientific_pos {m : Nat} {s : Bool} {e : Nat}
    (h : (0 : ℚ) < OfScientific.ofScientific m s e) :
    0 < @OfScientific.ofScientific α Scalar.toOfScientific m s e := by
  rw [ofScientific_eq]
  exact Rat.cast_pos.2 h

instance : Scalar.IsRing α where
  add_comm := add_comm
  add_assoc := add_assoc
  add_zero x := by rw [zero_eq, add_zero]
  neg_add_cancel x := by rw [zero_eq, neg_add_cancel]
  sub_eq_add_neg := sub_eq_add_neg
  mul_add := mul_add
  add_mul := add_mul

instance : Scalar.IsCommutative α := ⟨mul_comm⟩

end ExactScalar

instance : Scalar.HasCubeRoots ℝ where
  cubeRoot_nonneg x hx := Real.rpow_nonneg hx _
  cubeRoot_pow x hx := by
    have hthree : (3.0 : ℝ) = 3 := by
      rw [ExactScalar.ofScientific_eq]
      norm_num
    rw [ExactScalar.one_eq, hthree]
    change (x ^ (1 / 3 : ℝ)) ^ 3 = x
    rw [← Real.rpow_natCast, ← Real.rpow_mul hx]
    norm_num

namespace Scalar

variable {α : Type} [ExactScalar α] {x y : α}

theorem isNaN_exact (x : α) : isNaN x = false := by
  rw [isNaN, (ExactScalar.beq_iff x x).2 rfl]
  rfl

theorem isFinite_exact (x : α) : isFinite x := by
  rw [isFinite, isNaN_exact]
  rfl

theorem lesser_exact (x y : α) : lesser x y = min x y := by
  rw [lesser]
  split
  next h => rw [min_eq_right h.le]
  next h => rw [min_eq_left (not_lt.1 h)]

theorem lower_exact (x y : α) : lower x y = min x y := by
  rw [← lesser_exact, lower, lesser, isNaN_exact]
  simp only [Bool.false_eq_true, or_false]

theorem upper_exact (x y : α) : upper x y = max x y := by
  rw [upper, isNaN_exact]
  simp only [Bool.false_eq_true, or_false]
  split
  next h => rw [max_eq_right h.le]
  next h => rw [max_eq_left (not_lt.1 h)]

theorem larger_exact (x y : α) : larger x y = max x y := by
  rw [larger]
  split
  next h => rw [max_eq_right h.le]
  next h => rw [max_eq_left (not_lt.1 h)]

theorem quotient_exact (h : y ≠ 0) : quotient x y = .ok (x / y) := by
  rw [quotient, ExactScalar.zero_eq, if_neg (mt (ExactScalar.beq_iff y 0).1 h)]

theorem power_of_nonneg (hx : 0 ≤ x) (hy : 0 < y) : power x y = .ok (pow x y) := by
  rw [power, ExactScalar.zero_eq, if_neg fun h => not_lt.2 hy.le h.2,
    if_neg fun h => not_lt.2 hx h.1]
  simp only [isFinite_exact, Bool.not_true, Bool.false_eq_true, and_false, if_false]

end Scalar

/-- The density of a flat universe is that of its expansion rate. -/
theorem CosmologyConfig.criticalDensity_exact {α : Type} [ExactScalar α] [Scalar.HasPi α]
    {c : CosmologyConfig α} (hh : 0 < c.hubble) (hg : 0 < c.gravity) :
    c.criticalDensity = .ok (3.0 * Scalar.pow c.hubble 2.0 / (8.0 * Scalar.pi * c.gravity)) ∧
      0 < 3.0 * Scalar.pow c.hubble 2.0 / (8.0 * Scalar.pi * c.gravity) := by
  have htwo : (0 : α) < 2.0 := ExactScalar.ofScientific_pos (by norm_num)
  have hthree : (0 : α) < 3.0 := ExactScalar.ofScientific_pos (by norm_num)
  have height : (0 : α) < 8.0 := ExactScalar.ofScientific_pos (by norm_num)
  have hbelow : 0 < 8.0 * Scalar.pi * c.gravity := mul_pos (mul_pos height Scalar.HasPi.pi_pos) hg
  constructor
  · rw [criticalDensity, Scalar.power_of_nonneg hh.le htwo]
    exact Scalar.quotient_exact hbelow.ne'
  · exact div_pos (mul_pos hthree (ExactScalar.pow_pos _ _ hh)) hbelow

end BlockStep
