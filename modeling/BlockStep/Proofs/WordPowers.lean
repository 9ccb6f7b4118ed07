import BlockStep.Proofs.Placement
import BlockStep.TickCount.Rows

namespace BlockStep

namespace Word

/-- The bits of a word. -/
def bits (x : Int) : BitVec 64 := BitVec.ofInt 64 x

def shifted (places : Nat) : Int := (1#64 <<< places).toInt

theorem shifted_eq {places : Nat} (h : places ≤ 62) : shifted places = pow2 places := by
  have hlt : 2 ^ places < 2 ^ 63 := Nat.pow_lt_pow_right (by decide) (by omega)
  have hnat : (1#64 <<< places).toNat = 2 ^ places := by
    rw [BitVec.toNat_shiftLeft, BitVec.toNat_ofNat, Nat.shiftLeft_eq]
    omega
  rw [shifted, BitVec.toInt_eq_toNat_of_lt (by omega), hnat]
  rfl

theorem toNat_bits {n : Nat} (h : n < pow2 64) : (bits n).toNat = n := by
  rw [bits, BitVec.ofInt_natCast, BitVec.toNat_ofNat]
  exact Nat.mod_eq_of_lt h

end Word

namespace TickCount

/-- `d` is `n` rounded to 53 binary digits: it counts units of the last of these digits, lies at
most half a unit away, and if it lies halfway it counts evenly many. -/
structure IsNearest (n d : Nat) : Prop where
  units : ∃ q, d = q * pow2 (n.log2 - 52) ∧ q ≤ pow2 53 ∧
    (2 * ((d : Int) - n).natAbs = pow2 (n.log2 - 52) → q % 2 = 0)
  near : 2 * ((d : Int) - n).natAbs ≤ pow2 (n.log2 - 52)

theorem isNearest_toDouble (n : Nat) : IsNearest n (toDouble n) := by
  have hpos := pow2_pos (n.log2 - 52)
  have hmod := Nat.mod_lt n hpos
  have hdiv := Nat.div_add_mod' n (pow2 (n.log2 - 52))
  have hq : n / pow2 (n.log2 - 52) < pow2 53 := by
    apply Nat.div_lt_of_lt_mul
    rw [← pow2_add]
    exact Nat.lt_of_lt_of_le (lt_pow2_log2 n) (pow2_le (by omega))
  have hup := Nat.succ_mul (n / pow2 (n.log2 - 52)) (pow2 (n.log2 - 52))
  rw [Nat.succ_eq_add_one] at hup
  simp only [toDouble]
  split
  next hdown =>
    refine ⟨⟨_, rfl, by omega, fun htie => ?_⟩, by omega⟩
    omega
  next hnot =>
    refine ⟨⟨_, rfl, by omega, fun htie => ?_⟩, by omega⟩
    omega

theorem binaryExponent_spec {n : Nat} (h : n ≠ 0) :
    pow2 (binaryExponent n - 1) ≤ n ∧ n < pow2 (binaryExponent n) := by
  rw [binaryExponent, if_neg h]
  exact ⟨pow2_log2_le h, lt_pow2_log2 n⟩

def firstBin (ticks : Int) : Nat := min (binaryExponent (toDouble ticks.toNat) - 1) 62

theorem firstBin_le (ticks : Int) : firstBin ticks ≤ 62 := Nat.min_le_right _ 62

theorem binOf_eq_firstBin {ticks : Int} (h : 1 ≤ ticks) : binOf ticks =
    if ticks < Word.shifted (firstBin ticks) then (firstBin ticks : Int) - 1
    else firstBin ticks := by
  have hlt : ticks < (pow2 (firstBin ticks) : Int) ↔ ticks.toNat < pow2 (firstBin ticks) := by
    omega
  rw [Word.shifted_eq (firstBin_le ticks), binOf, if_neg (by omega)]
  simp only [hlt]
  rfl

theorem eq_of_isStep {ticks x : Int} {b : Nat} (hx : IsStep x) (hle : x ≤ ticks)
    (hlt : ticks < 2 * x) (hb : (pow2 b : Int) ≤ ticks) (hb' : ticks < pow2 (b + 1)) :
    x = pow2 b := by
  rcases hx with rfl | ⟨c, -, rfl⟩
  · omega
  · have hcb : c < b + 1 := lt_of_pow2_lt (by omega)
    have hbc : b < c + 1 := by
      apply lt_of_pow2_lt
      rw [pow2_succ c]
      omega
    obtain rfl : c = b := by omega
    rfl

theorem isPowerOrZero_iff {x : Int} (hx : x ≤ Word.greatest) : isPowerOrZero x ↔ IsStep x := by
  constructor
  · intro h
    simp only [isPowerOrZero, Bool.and_eq_true, decide_eq_true_eq, beq_iff_eq] at h
    obtain ⟨hnonneg, hand⟩ := h
    by_cases hzero : x.toNat = 0
    · exact .inl (by omega)
    · obtain ⟨k, hk⟩ := (Nat.and_sub_one_eq_zero_iff_isPowerOfTwo hzero).1 hand
      have hk' : x = pow2 k := by
        rw [← Int.toNat_of_nonneg hnonneg, hk]
        rfl
      have hlt : pow2 k < pow2 63 := by
        have h63 : pow2 63 = 0x8000000000000000 := rfl
        rw [Word.greatest] at hx
        omega
      have := lt_of_pow2_lt hlt
      exact .inr ⟨k, by omega, hk'⟩
  · rintro (rfl | ⟨k, -, rfl⟩)
    · rfl
    · have hand : pow2 k &&& (pow2 k - 1) = 0 :=
        (Nat.and_sub_one_eq_zero_iff_isPowerOfTwo (Nat.ne_of_gt (pow2_pos k))).2 ⟨k, rfl⟩
      simp [isPowerOrZero, hand]

theorem bits_and_pred {n : Nat} (h : n ≠ 0) (hn : n < pow2 64) :
    (Word.bits n &&& (Word.bits n - 1#64)).toNat = n &&& (n - 1) := by
  have hone : (1#64).toNat ≤ (Word.bits n).toNat := by
    rw [Word.toNat_bits hn]
    exact Nat.one_le_iff_ne_zero.2 h
  rw [BitVec.toNat_and, BitVec.toNat_sub_of_le hone, Word.toNat_bits hn]
  rfl

theorem isPowerOrZero_eq_bits {x : Int} (hx : Word.Holds x) : isPowerOrZero x =
    (decide (0 ≤ x) && (Word.bits x &&& (Word.bits x - 1#64)) == 0) := by
  by_cases hnonneg : 0 ≤ x
  · obtain ⟨n, rfl⟩ := Int.eq_ofNat_of_zero_le hnonneg
    by_cases hzero : n = 0
    · rw [hzero]
      decide
    · have hn : n < pow2 64 := by
        have h64 : pow2 64 = 0x10000000000000000 := rfl
        have hle := hx.2
        rw [Word.greatest] at hle
        omega
      have hbits := bits_and_pred hzero hn
      have hiff : (Word.bits n &&& (Word.bits n - 1#64)) = 0 ↔ n &&& (n - 1) = 0 := by
        rw [← hbits]
        exact BitVec.toNat_eq
      rw [isPowerOrZero, Int.toNat_natCast, Bool.eq_iff_iff]
      simp only [Bool.and_eq_true, beq_iff_eq, hiff]
  · rw [isPowerOrZero, decide_eq_false hnonneg, Bool.false_and, Bool.false_and]

/-- How the bin `b` of a step is found, and what the powers of two around the step are. -/
structure IsExact (ticks : Int) (b : Nat) : Prop where
  nearest : IsNearest ticks.toNat (toDouble ticks.toNat)
  exponent : pow2 (binaryExponent (toDouble ticks.toNat) - 1) ≤ toDouble ticks.toNat ∧
    toDouble ticks.toNat < pow2 (binaryExponent (toDouble ticks.toNat))
  first : firstBin ticks ≤ 62 ∧ Word.shifted (firstBin ticks) = pow2 (firstBin ticks)
  corrected : binOf ticks =
    if ticks < Word.shifted (firstBin ticks) then (firstBin ticks : Int) - 1 else firstBin ticks
  bin : binOf ticks = b
  le_62 : b ≤ 62
  le : (pow2 b : Int) ≤ ticks
  lt : ticks < pow2 (b + 1)
  rounded : roundDown ticks = pow2 b ∧ Word.shifted b = pow2 b
  power : ∀ x, isPowerOrZero x ∧ x ≤ ticks ∧ ticks < 2 * x ↔ x = roundDown ticks
  cadence : 2 ≤ ticks → cadence (binOf ticks) = roundDown ticks

theorem exists_isExact {ticks : Int} (hpos : 1 ≤ ticks) (hword : Word.Holds ticks) :
    ∃ b, IsExact ticks b := by
  obtain ⟨b, hbin, h62, hle, hlt⟩ := binOf_spec hpos
  have hgreatest : ticks ≤ Word.greatest := hword.2
  have hlt' : ticks < pow2 (b + 1) := by
    rcases hlt with hlt | rfl
    · exact hlt
    · exact Int.lt_of_le_of_lt hgreatest (by decide)
  have hround : roundDown ticks = pow2 b := by
    rw [roundDown, if_neg (by omega), hbin]
    rfl
  have hdouble : toDouble ticks.toNat ≠ 0 := by
    have hlow := (toDouble_bounds (n := ticks.toNat) (by omega)).1
    have := pow2_pos ticks.toNat.log2
    omega
  refine ⟨b, ?_⟩
  constructor
  case nearest => exact isNearest_toDouble _
  case exponent => exact binaryExponent_spec hdouble
  case first => exact ⟨firstBin_le ticks, Word.shifted_eq (firstBin_le ticks)⟩
  case corrected => exact binOf_eq_firstBin hpos
  case bin => exact hbin
  case le_62 => exact h62
  case le => exact hle
  case lt => exact hlt'
  case rounded => exact ⟨hround, Word.shifted_eq h62⟩
  case power =>
    intro x
    rw [hround]
    constructor
    · rintro ⟨hx, hxle, hxlt⟩
      exact eq_of_isStep ((isPowerOrZero_iff (by omega)).1 hx) hxle hxlt hle hlt'
    · rintro rfl
      rw [isPowerOrZero_iff (by omega)]
      refine ⟨.inr ⟨b, h62, rfl⟩, hle, ?_⟩
      rw [pow2_succ] at hlt'
      omega
  case cadence =>
    intro htwo
    have hb : 1 ≤ b := by
      rcases Nat.eq_zero_or_pos b with rfl | hb
      · have hone : pow2 (0 + 1) = 2 := rfl
        omega
      · exact hb
    rw [hbin, hround, cadence_natCast hb (by omega)]

theorem counted_cases (f : Int → Int) (s : Shaped Int) :
    (∃ t ∈ s.cells, t < 0) ∧ counted f s = .error .negativeTicks ∨
      (∀ t ∈ s.cells, 0 ≤ t) ∧ counted f s = .ok (s.map f) := by
  by_cases hall : s.all (0 ≤ ·)
  · refine .inr ⟨fun t ht => ?_, if_pos hall⟩
    simpa using Array.all_eq_true_iff_forall_mem.1 hall t ht
  · refine .inl ⟨?_, if_neg hall⟩
    rw [Shaped.all, Array.all_eq_true_iff_forall_mem] at hall
    simpa using hall

theorem counted_iff (f : Int → Int) (s : Shaped Int) :
    (counted f s = .error .negativeTicks ↔ ∃ t ∈ s.cells, t < 0) ∧
      (counted f s = .ok (s.map f) ↔ ∀ t ∈ s.cells, 0 ≤ t) := by
  rcases counted_cases f s with ⟨hneg, hc⟩ | ⟨hnonneg, hc⟩
  · obtain ⟨t, ht, hlt⟩ := hneg
    rw [hc]
    exact ⟨iff_of_true rfl ⟨t, ht, hlt⟩,
      iff_of_false (by nofun) fun hall => Int.not_lt.2 (hall t ht) hlt⟩
  · rw [hc]
    refine ⟨iff_of_false (by nofun) ?_, iff_of_true rfl hnonneg⟩
    rintro ⟨t, ht, hlt⟩
    exact Int.not_lt.2 (hnonneg t ht) hlt

/-- Bins and powers of two are exact for all words: a step of at least one tick has its logarithm
for a bin, the test on bits finds the powers of two, and only negative numbers have no bin. -/
theorem exact_among_words :
    (∀ ticks, 1 ≤ ticks → Word.Holds ticks → ∃ b, IsExact ticks b) ∧
    (∀ x, Word.Holds x →
      (isPowerOrZero x = (decide (0 ≤ x) && (Word.bits x &&& (Word.bits x - 1#64)) == 0)) ∧
      (isPowerOrZero x ↔ x = 0 ∨ ∃ k : Nat, k ≤ 62 ∧ x = pow2 k)) ∧
    ∀ s : Shaped Int,
      ((binsOf s = .error .negativeTicks ↔ ∃ t ∈ s.cells, t < 0) ∧
        (binsOf s = .ok (s.map binOf) ↔ ∀ t ∈ s.cells, 0 ≤ t)) ∧
      (roundedDown s = .error .negativeTicks ↔ ∃ t ∈ s.cells, t < 0) ∧
        (roundedDown s = .ok (s.map roundDown) ↔ ∀ t ∈ s.cells, 0 ≤ t) := by
  refine ⟨fun ticks => exists_isExact, fun x hx => ?_, fun s => ?_⟩
  · exact ⟨isPowerOrZero_eq_bits hx, isPowerOrZero_iff hx.2⟩
  · exact ⟨counted_iff binOf s, counted_iff roundDown s⟩

theorem exact_among_words_sample :
    (∃ b, IsExact Word.greatest b) ∧ (isPowerOrZero Word.least ↔
      Word.least = 0 ∨ ∃ k : Nat, k ≤ 62 ∧ Word.least = pow2 k) := by
  obtain ⟨hexact, htest, -⟩ := exact_among_words
  exact ⟨hexact _ (by decide) (by decide), (htest _ (by decide)).2⟩

end TickCount

end BlockStep
