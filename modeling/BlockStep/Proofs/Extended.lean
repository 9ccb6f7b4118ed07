import BlockStep.Proofs.Exact

namespace BlockStep

/-- A number, an infinity, or the undefined number. -/
inductive Extended (α : Type) where
  | undefined
  | negInf
  | posInf
  | real (x : α)
deriving DecidableEq

namespace Extended

variable {α : Type}

theorem real_ne_undefined (a : α) : real a ≠ undefined := nofun

theorem negInf_ne_undefined : (negInf : Extended α) ≠ undefined := nofun

theorem posInf_ne_undefined : (posInf : Extended α) ≠ undefined := nofun

variable [ExactScalar α]

def sign : Extended α → α
  | undefined => 0
  | negInf => -1
  | posInf => 1
  | real x => x

/-- The infinity of a sign; a number without sign gives none. -/
def infinity (sign : α) : Extended α :=
  if 0 < sign then posInf else if sign < 0 then negInf else undefined

def add : Extended α → Extended α → Extended α
  | real x, real y => real (x + y)
  | undefined, _ | _, undefined | posInf, negInf | negInf, posInf => undefined
  | posInf, _ | _, posInf => posInf
  | negInf, _ | _, negInf => negInf

def neg : Extended α → Extended α
  | undefined => undefined
  | negInf => posInf
  | posInf => negInf
  | real x => real (-x)

def mul : Extended α → Extended α → Extended α
  | real x, real y => real (x * y)
  | undefined, _ | _, undefined => undefined
  | x, y => infinity (x.sign * y.sign)

def div : Extended α → Extended α → Extended α
  | real x, real y => if y = 0 then infinity x else real (x / y)
  | undefined, _ | _, undefined => undefined
  | real _, _ => real 0
  | x, real y => infinity (if y < 0 then -x.sign else x.sign)
  | _, _ => undefined

def lt : Extended α → Extended α → Prop
  | real x, real y => x < y
  | negInf, real _ | negInf, posInf | real _, posInf => True
  | _, _ => False

def le : Extended α → Extended α → Prop
  | real x, real y => x ≤ y
  | negInf, negInf | negInf, real _ | negInf, posInf | real _, posInf | posInf, posInf => True
  | _, _ => False

def beq : Extended α → Extended α → Bool
  | real x, real y => x == y
  | negInf, negInf | posInf, posInf => true
  | _, _ => false

instance decidableLt : (x y : Extended α) → Decidable (lt x y)
  | real x, real y => inferInstanceAs (Decidable (x < y))
  | negInf, real _ | negInf, posInf | real _, posInf => isTrue trivial
  | undefined, _ | posInf, _ | negInf, undefined | negInf, negInf | real _, undefined
  | real _, negInf => isFalse not_false

instance decidableLe : (x y : Extended α) → Decidable (le x y)
  | real x, real y => inferInstanceAs (Decidable (x ≤ y))
  | negInf, negInf | negInf, real _ | negInf, posInf | real _, posInf | posInf, posInf =>
    isTrue trivial
  | undefined, _ | posInf, undefined | posInf, negInf | posInf, real _ | negInf, undefined
  | real _, undefined | real _, negInf => isFalse not_false

def floor : Extended α → Extended α
  | real x => real (Scalar.floor x)
  | x => x

def sqrt : Extended α → Extended α
  | real x => if x < 0 then undefined else real (Scalar.sqrt x)
  | posInf => posInf
  | _ => undefined

def exp : Extended α → Extended α
  | real x => real (Scalar.exp x)
  | negInf => real 0
  | x => x

def log : Extended α → Extended α
  | real x => if x < 0 then undefined else if x = 0 then negInf else real (Scalar.log x)
  | posInf => posInf
  | _ => undefined

def powPosInf : Extended α → Extended α
  | undefined => undefined
  | real x => if 1 < |x| then posInf else if |x| < 1 then real 0 else real 1
  | _ => posInf

def powNegInf : Extended α → Extended α
  | undefined => undefined
  | real x => if 1 < |x| then real 0 else if |x| < 1 then posInf else real 1
  | _ => real 0

def powReal (y : α) : Extended α → Extended α
  | undefined => undefined
  | real x =>
    if x = 0 then (if y < 0 then posInf else real 0)
    else if x < 0 ∧ Scalar.floor y ≠ y then undefined
    else real (Scalar.pow x y)
  | posInf => if y < 0 then real 0 else posInf
  | negInf =>
    if y < 0 then real 0
    else if Scalar.floor y = y ∧ Scalar.floor (y / 2) ≠ y / 2 then negInf else posInf

/-- A power of one, and one with the exponent zero, are one even where the other is undefined. -/
def pow (x y : Extended α) : Extended α :=
  if y = real 0 ∨ x = real 1 then real 1
  else
    match y with
    | undefined => undefined
    | negInf => powNegInf x
    | posInf => powPosInf x
    | real y => powReal y x

instance : Scalar (Extended α) where
  add := add
  sub x y := add x (neg y)
  mul := mul
  div := div
  neg := neg
  lt := lt
  le := le
  beq := beq
  ofScientific m s e := real (OfScientific.ofScientific m s e)
  decideLt := decidableLt
  decideLe := decidableLe
  ofInt i := real (Scalar.ofInt i)
  floor := floor
  trunc
    | real x => Scalar.trunc x
    | _ => Word.least
  sqrt := sqrt
  exp := exp
  log := log
  pow := pow
  pi := real Scalar.pi

variable {x y : Extended α} {a b : α}

theorem zero_eq : (0.0 : Extended α) = real 0 := congrArg real ExactScalar.zero_eq

theorem one_eq : (1.0 : Extended α) = real 1 := congrArg real ExactScalar.one_eq

theorem ofInt_eq (i : Int) : (Scalar.ofInt i : Extended α) = real (i : α) :=
  congrArg real (ExactScalar.ofInt_eq i)

theorem literal_eq (m : Nat) (s : Bool) (e : Nat) :
    (OfScientific.ofScientific m s e : Extended α) =
      real ((OfScientific.ofScientific m s e : ℚ) : α) :=
  congrArg real (ExactScalar.ofScientific_eq m s e)

@[simp] theorem real_mul : real a * real b = real (a * b) := rfl

@[simp] theorem real_sub : real a - real b = real (a - b) :=
  congrArg real (sub_eq_add_neg a b).symm

theorem real_div (h : b ≠ 0) : real a / real b = real (a / b) := if_neg h

theorem real_beq_real : (real a == real b) ↔ a = b := ExactScalar.beq_iff a b

@[simp] theorem real_lt_real : real a < real b ↔ a < b := Iff.rfl

@[simp] theorem real_le_real : real a ≤ real b ↔ a ≤ b := Iff.rfl

@[simp] theorem isNaN_iff : Scalar.isNaN x ↔ x = undefined := by
  rw [Scalar.isNaN, Bool.not_eq_true', ← Bool.not_eq_true]
  cases x with
  | undefined => exact iff_of_true Bool.false_ne_true rfl
  | negInf => exact iff_of_false (not_not.2 rfl) negInf_ne_undefined
  | posInf => exact iff_of_false (not_not.2 rfl) posInf_ne_undefined
  | real a => exact iff_of_false (not_not.2 ((ExactScalar.beq_iff a a).2 rfl)) (real_ne_undefined a)

theorem isNaN_real (a : α) : Scalar.isNaN (real a) = false := by
  rw [← Bool.not_eq_true, isNaN_iff]
  exact real_ne_undefined a

@[simp] theorem larger_real : Scalar.larger (real a) (real b) = real (max a b) := by
  rw [← Scalar.larger_exact]
  exact (apply_ite real _ _ _).symm

@[simp] theorem lesser_real : Scalar.lesser (real a) (real b) = real (min a b) := by
  rw [← Scalar.lesser_exact]
  exact (apply_ite real _ _ _).symm

theorem isFinite_real (a : α) : Scalar.isFinite (real a) := by
  rw [Scalar.isFinite, real_sub, isNaN_real]
  rfl

theorem quotient_real (h : b ≠ 0) : Scalar.quotient (real a) (real b) = .ok (real (a / b)) := by
  rw [Scalar.quotient, zero_eq, if_neg (mt real_beq_real.1 h), real_div h]

theorem exists_pow_real (ha : 0 < a) (b : α) :
    ∃ v, 0 < v ∧ Scalar.pow (real a) (real b) = real v := by
  change ∃ v, 0 < v ∧ pow (real a) (real b) = real v
  rw [pow]
  split
  · exact ⟨1, one_pos, rfl⟩
  · refine ⟨Scalar.pow a b, ExactScalar.pow_pos a b ha, ?_⟩
    simp only [powReal, if_neg ha.ne', not_lt.2 ha.le, false_and, if_false]

theorem exists_power_real (ha : 0 < a) (b : α) :
    ∃ v, 0 < v ∧ Scalar.power (real a) (real b) = .ok (real v) := by
  obtain ⟨v, hv, hpow⟩ := exists_pow_real ha b
  have hzero : ¬ (real a == real (0 : α)) := mt real_beq_real.1 ha.ne'
  have hneg : ¬ real a < real (0 : α) := not_lt.2 ha.le
  refine ⟨v, hv, ?_⟩
  rw [Scalar.power, zero_eq, if_neg fun h => hzero h.1, if_neg fun h => hneg h.1]
  simp only [hpow, isFinite_real, Bool.not_true, Bool.false_eq_true, and_false, if_false]

/-- The weights of gas at a scale factor that is a positive number. -/
theorem exists_gasWeights {f : TimeFactors (Extended α)} (ha : 0 < a) (hf : f.a = real a) :
    ∃ w v, 0 < v ∧ f.gasWeights = .ok w ∧ w.signal = real v := by
  have hthree : ((OfScientific.ofScientific 30 true 1 : ℚ) : α) ≠ 0 := by norm_num
  have htwo : ((OfScientific.ofScientific 20 true 1 : ℚ) : α) ≠ 0 := by norm_num
  have hforce : ∃ b : α, (3.0 * gamma - 2.0 : Extended α) = real b := by
    simp only [gamma, literal_eq, real_div hthree, real_mul, real_sub, real.injEq, exists_eq']
  have hsignal : ∃ b : α, (3.0 * (1.0 - gamma) / 2.0 : Extended α) = real b := by
    simp only [gamma, literal_eq, real_div hthree, real_div htwo, real_mul, real_sub, real.injEq,
      exists_eq']
  obtain ⟨b, hb⟩ := hforce
  obtain ⟨b', hb'⟩ := hsignal
  obtain ⟨v, hv, hpower⟩ := exists_power_real ha b
  obtain ⟨v', hv', hpower'⟩ := exists_power_real ha b'
  refine ⟨⟨real (1 / v), real v'⟩, v', hv', ?_, rfl⟩
  have hquotient : Scalar.quotient 1.0 (real v) = .ok (real (1 / v)) := by
    rw [one_eq, quotient_real hv.ne']
  rw [TimeFactors.gasWeights, hf, hb, hb', hpower, hpower']
  simp only [bind, Except.bind, hquotient]

theorem isFinite_iff : Scalar.isFinite x ↔ ∃ a, x = real a := by
  constructor
  · intro h
    cases x with
    | real a => exact ⟨a, rfl⟩
    | _ => cases h
  · rintro ⟨a, rfl⟩
    exact isFinite_real a

theorem real_le_trans (h : a ≤ b) (h' : real b ≤ x) : real a ≤ x := by
  cases x with
  | real c => exact real_le_real.2 (h.trans (real_le_real.1 h'))
  | posInf => exact trivial
  | _ => exact h'.elim

theorem real_le_of_lt (h : real a ≤ x) (h' : x < y) : real a ≤ y := by
  cases x with
  | real b =>
    cases y with
    | real c => exact real_le_real.2 ((real_le_real.1 h).trans (real_lt_real.1 h').le)
    | posInf => exact trivial
    | _ => exact h'.elim
  | posInf => exact h'.elim
  | _ => exact h.elim

theorem real_le_of_not_lt (h : real a ≤ x) (h' : ¬ y < x) (hy : y ≠ undefined) : real a ≤ y := by
  cases y with
  | undefined => exact absurd rfl hy
  | posInf => exact trivial
  | negInf =>
    cases x with
    | real c => exact absurd trivial h'
    | posInf => exact absurd trivial h'
    | _ => exact h.elim
  | real b =>
    cases x with
    | real c => exact real_le_real.2 ((real_le_real.1 h).trans (not_lt.1 (mt real_lt_real.2 h')))
    | posInf => exact absurd trivial h'
    | _ => exact h.elim

/-- A number below the least of some bounds is below each of them that has a value. -/
theorem real_le_of_le_foldl_lesser {xs : List (Extended α)}
    (h : real a ≤ xs.foldl Scalar.lesser x) :
    real a ≤ x ∧ ∀ y ∈ xs, y ≠ undefined → real a ≤ y := by
  induction xs generalizing x with
  | nil => exact ⟨h, nofun⟩
  | cons z zs ih =>
    obtain ⟨hfirst, hrest⟩ := ih h
    rw [Scalar.lesser] at hfirst
    have hboth : real a ≤ x ∧ (z ≠ undefined → real a ≤ z) := by
      split at hfirst
      next hlt => exact ⟨real_le_of_lt hfirst hlt, fun _ => hfirst⟩
      next hlt => exact ⟨hfirst, real_le_of_not_lt hfirst hlt⟩
    refine ⟨hboth.1, ?_⟩
    intro y hy
    rcases List.mem_cons.1 hy with rfl | hy
    · exact hboth.2
    · exact hrest y hy

theorem negInf_mul_real (ha : 0 < a) : negInf * real a = negInf := by
  change infinity (-1 * a) = negInf
  rw [infinity, if_neg (by linarith), if_pos (by linarith)]

theorem negInf_div_real (ha : 0 < a) : negInf / real a = negInf := by
  change infinity (if a < 0 then - -1 else -1) = negInf
  rw [if_neg (not_lt.2 ha.le), infinity, if_neg (by linarith), if_pos (by linarith)]

theorem real_le_of_le_mul (hb : 0 < b) (h : real a ≤ x * real b) : real (a / b) ≤ x := by
  cases x with
  | real c => exact real_le_real.2 ((div_le_iff₀ hb).2 (real_le_real.1 h))
  | posInf => exact trivial
  | undefined => exact h.elim
  | negInf =>
    rw [negInf_mul_real hb] at h
    exact h.elim

theorem real_le_of_le_floor [Scalar.HasWholes α] (hb : 0 < b)
    (h : real a ≤ Scalar.floor (x / real b)) : real (a * b) ≤ x := by
  cases x with
  | real c =>
    rw [real_div hb.ne'] at h
    have hfloor : a ≤ c / b := (real_le_real.1 h).trans (Scalar.HasWholes.floor_le _)
    exact real_le_real.2 ((le_div_iff₀ hb).1 hfloor)
  | posInf => exact trivial
  | undefined => exact h.elim
  | negInf =>
    rw [negInf_div_real hb] at h
    exact h.elim

def IsWhole : Extended α → Prop
  | real a => ∃ i : Int, a = i
  | _ => True

theorem isWhole_floor (x : Extended α) : IsWhole (Scalar.floor x) := by
  cases x with
  | real a => exact ExactScalar.floor_eq a
  | _ => trivial

instance : Scalar.IsCommutative (Extended α) where
  mul_comm x y := by
    change mul x y = mul y x
    cases x <;> cases y <;> simp only [mul, mul_comm]

end Extended

end BlockStep
