import BlockStep.Assign

namespace BlockStep

theorem pow2_le {m n : Nat} (h : m ≤ n) : pow2 m ≤ pow2 n := Nat.le_of_dvd (pow2_pos n) (pow2_dvd h)

theorem natCast_pow2_dvd {m n : Nat} (h : m ≤ n) : (pow2 m : Int) ∣ pow2 n :=
  Int.natCast_dvd_natCast.2 (pow2_dvd h)

theorem le_of_pow2_le {m n : Nat} (h : pow2 m ≤ pow2 n) : m ≤ n :=
  Nat.le_of_not_lt fun hlt => absurd (pow2_lt hlt) (Nat.not_lt.2 h)

theorem lt_of_pow2_lt {m n : Nat} (h : pow2 m < pow2 n) : m < n :=
  Nat.lt_of_not_le fun hle => absurd (pow2_le hle) (Nat.not_le.2 h)

theorem pow2_log2_le {n : Nat} (h : n ≠ 0) : pow2 n.log2 ≤ n := Nat.log2_self_le h

theorem lt_pow2_log2 (n : Nat) : n < pow2 (n.log2 + 1) := Nat.lt_log2_self

namespace TickCount

/-- Rounding to a double stays between the powers of two around a number. -/
theorem toDouble_bounds {n : Nat} (h : n ≠ 0) :
    pow2 n.log2 ≤ toDouble n ∧ toDouble n ≤ pow2 (n.log2 + 1) := by
  have hle := pow2_log2_le h
  have hlt := lt_pow2_log2 n
  by_cases hs : n.log2 ≤ 52
  · have hu : n.log2 - 52 = 0 := by omega
    have hd : toDouble n = n := by
      simp [toDouble, hu, Nat.mod_one]
    rw [hd]
    exact ⟨hle, Nat.le_of_lt hlt⟩
  · obtain ⟨k, hk⟩ : ∃ k, n.log2 = 52 + k := ⟨n.log2 - 52, by omega⟩
    have hu := pow2_pos k
    have hq : pow2 52 ≤ n / pow2 k := by
      rw [Nat.le_div_iff_mul_le hu, ← pow2_add, ← hk]
      exact hle
    have hq' : n / pow2 k < pow2 53 := by
      apply Nat.div_lt_of_lt_mul
      rw [Nat.mul_comm, ← pow2_add]
      rw [hk] at hlt
      exact lt_of_lt_of_eq hlt (congrArg pow2 (by omega))
    have hlow : pow2 n.log2 ≤ n / pow2 k * pow2 k := by
      rw [hk, pow2_add]
      exact Nat.mul_le_mul_right _ hq
    have hhigh : (n / pow2 k + 1) * pow2 k ≤ pow2 (n.log2 + 1) := by
      have he : n.log2 + 1 = 53 + k := by omega
      rw [he, pow2_add]
      exact Nat.mul_le_mul_right _ hq'
    have hstep : n / pow2 k * pow2 k ≤ (n / pow2 k + 1) * pow2 k :=
      Nat.mul_le_mul_right _ (Nat.le_succ _)
    have hk' : n.log2 - 52 = k := by omega
    simp only [toDouble, hk']
    split
    · exact ⟨hlow, Nat.le_trans hstep hhigh⟩
    · exact ⟨Nat.le_trans hlow hstep, hhigh⟩

theorem log2_toDouble {n : Nat} (h : n ≠ 0) :
    (toDouble n).log2 = n.log2 ∨ (toDouble n).log2 = n.log2 + 1 := by
  obtain ⟨hl, hh⟩ := toDouble_bounds h
  have hpos := pow2_pos n.log2
  have hd : toDouble n ≠ 0 := by omega
  have hlow : n.log2 ≤ (toDouble n).log2 := (Nat.le_log2 hd).2 hl
  have hhigh : (toDouble n).log2 ≤ n.log2 + 1 :=
    le_of_pow2_le (Nat.le_trans (pow2_log2_le hd) hh)
  omega

/-- The bin of a step is its binary logarithm, at most 62. -/
theorem binOf_spec {t : Int} (h : 1 ≤ t) :
    ∃ b : Nat, binOf t = b ∧ b ≤ 62 ∧ (pow2 b : Int) ≤ t ∧ (t < pow2 (b + 1) ∨ b = 62) := by
  obtain ⟨n, rfl⟩ : ∃ n : Nat, t = n := ⟨t.toNat, by omega⟩
  have hn : n ≠ 0 := by omega
  have hle := pow2_log2_le hn
  have hlt := lt_pow2_log2 n
  have hd : toDouble n ≠ 0 := by
    have := (toDouble_bounds hn).1
    have := pow2_pos n.log2
    omega
  have hbin : binOf n = if n < pow2 (min (toDouble n).log2 62)
      then ((min (toDouble n).log2 62 : Nat) : Int) - 1 else (min (toDouble n).log2 62 : Nat) := by
    rw [binOf, if_neg (by omega)]
    simp only [binaryExponent, if_neg hd, Int.toNat_natCast, Nat.add_sub_cancel]
  rw [hbin]
  by_cases hbig : n.log2 < 62
  · refine ⟨n.log2, ?_, by omega, by omega, .inl (by omega)⟩
    rcases log2_toDouble hn with he | he
    · have hm : min (toDouble n).log2 62 = n.log2 := by omega
      rw [hm, if_neg (by omega)]
    · -- the double is the next power of two, which the comparison sees
      have hm : min (toDouble n).log2 62 = n.log2 + 1 := by omega
      rw [hm, if_pos hlt]
      omega
  · have hm : min (toDouble n).log2 62 = 62 := by
      rcases log2_toDouble hn with he | he <;> omega
    have h62 : pow2 62 ≤ n := Nat.le_trans (pow2_le (by omega)) hle
    rw [hm, if_neg (by omega)]
    exact ⟨62, rfl, by omega, by omega, .inr rfl⟩

theorem binOf_pow2 {b : Nat} (h : b ≤ 62) : binOf (pow2 b) = b := by
  have hpos := pow2_pos b
  obtain ⟨c, hc, hc', hle, hlt⟩ := binOf_spec (t := pow2 b) (by omega)
  have hcb : c ≤ b := le_of_pow2_le (by omega)
  have hbc : b < c + 1 := by
    rcases hlt with hlt | rfl
    · exact lt_of_pow2_lt (by omega)
    · omega
  rw [hc]
  omega

theorem roundDown_spec {t : Int} (h : 1 ≤ t) :
    ∃ b : Nat, roundDown t = pow2 b ∧ b ≤ 62 ∧ (pow2 b : Int) ≤ t ∧
      (t < pow2 (b + 1) ∨ b = 62) := by
  obtain ⟨b, hb, hspec⟩ := binOf_spec h
  refine ⟨b, ?_, hspec⟩
  rw [roundDown, if_neg (by omega), hb]
  rfl

theorem roundDown_pow2 {b : Nat} (h : b ≤ 62) : roundDown (pow2 b) = pow2 b := by
  have hpos := pow2_pos b
  rw [roundDown, if_neg (by omega), binOf_pow2 h]
  rfl

theorem roundDown_of_not_pos {t : Int} (h : t ≤ 0) : roundDown t = 0 := if_pos h

theorem pos_of_one_lt_roundDown {t : Int} (h : 1 < roundDown t) : 1 ≤ t := by
  by_cases hpos : 1 ≤ t
  · exact hpos
  · rw [roundDown_of_not_pos (by omega)] at h
    omega

/-- A length that a step may have: none or a power of two. -/
def IsStep (ticks : Int) : Prop := ticks = 0 ∨ ∃ b : Nat, b ≤ 62 ∧ ticks = pow2 b

theorem IsStep.nonneg {ticks : Int} (h : IsStep ticks) : 0 ≤ ticks := by
  rcases h with rfl | ⟨b, -, rfl⟩
  · exact Int.le_refl 0
  · exact Int.natCast_nonneg _

theorem isStep_roundDown (t : Int) : IsStep (roundDown t) := by
  by_cases h : 1 ≤ t
  · obtain ⟨b, hb, hb', -⟩ := roundDown_spec h
    exact .inr ⟨b, hb', hb⟩
  · exact .inl (roundDown_of_not_pos (by omega))

theorem roundDown_le {t : Int} (h : 0 ≤ t) : roundDown t ≤ t := by
  by_cases h' : 1 ≤ t
  · obtain ⟨b, hb, -, hle, -⟩ := roundDown_spec h'
    rwa [hb]
  · rw [roundDown_of_not_pos (by omega)]
    exact h

theorem cadence_natCast {b : Nat} (h : 1 ≤ b) (h' : b < 63) : cadence b = pow2 b := by
  rw [cadence_of_pos (by omega) (by omega)]
  rfl

theorem cadence_le_pow2 {bin : Int} {b : Nat} (h : bin ≤ b) (hb : b ≤ 62) :
    cadence bin ≤ pow2 b := by
  by_cases hpos : 0 < bin
  · rw [cadence_of_pos hpos (by omega)]
    exact_mod_cast pow2_le (by omega : bin.toNat ≤ b)
  · rw [cadence, if_pos (by omega)]
    exact Int.natCast_nonneg _

theorem le_of_cadence_le {bin bin' : Int} (hbin : bin ≤ 62) (hpos : 0 < bin')
    (h : cadence bin ≤ cadence bin') : bin ≤ bin' := by
  by_cases hlow : 0 < bin ∧ bin' ≤ 62
  · rw [cadence_of_pos hlow.1 (by omega), cadence_of_pos hpos (by omega)] at h
    have hle : bin.toNat ≤ bin'.toNat := le_of_pow2_le (by omega)
    omega
  · omega

end TickCount

namespace Assign

theorem highestActive_le (f : Nat → Bool) (b : Nat) : highestActive f b ≤ b := by
  induction b with
  | zero => rw [highestActive]; split <;> omega
  | succ b ih => rw [highestActive]; split <;> omega

theorem le_highestActive {f : Nat → Bool} {b c : Nat} (hc : f c) (hb : c ≤ b) :
    c ≤ highestActive f b := by
  induction b with
  | zero =>
    obtain rfl : c = 0 := by omega
    rw [highestActive, if_pos hc]
    omega
  | succ b ih =>
    rw [highestActive]
    split
    · omega
    next h =>
      have hne : c ≠ b + 1 := by
        rintro rfl
        exact h hc
      exact ih (by omega)

theorem highestActive_cases (f : Nat → Bool) (b : Nat) :
    highestActive f b = -1 ∨ ∃ c : Nat, f c ∧ highestActive f b = c := by
  induction b with
  | zero =>
    rw [highestActive]
    split
    next h => exact .inr ⟨0, h, rfl⟩
    · exact .inl rfl
  | succ b ih =>
    rw [highestActive]
    split
    next h => exact .inr ⟨b + 1, h, rfl⟩
    · exact ih

variable {n : Nat} {f : Nat → Bool} {desired current : Int}

theorem candidate_spec (hn : 2 ≤ n) (hd : 1 < TickCount.roundDown desired) :
    ∃ c : Nat, candidate n desired = c ∧ 1 ≤ c ∧ c < n ∧ c ≤ 62 ∧
      (pow2 c : Int) ≤ TickCount.roundDown desired := by
  obtain ⟨b, hb, hb', -⟩ := TickCount.roundDown_spec (TickCount.pos_of_one_lt_roundDown hd)
  have hb1 : 1 ≤ b := by
    rcases Nat.eq_zero_or_pos b with rfl | h
    · rw [hb, pow2_zero] at hd
      omega
    · exact h
  refine ⟨min b (n - 1), ?_, by omega, by omega, by omega, ?_⟩
  · rw [candidate, hb, TickCount.binOf_pow2 hb']
    omega
  · rw [hb]
    exact_mod_cast pow2_le (Nat.min_le_left _ _)

/-- Whatever the hierarchy and the bin so far, a usable step is not exceeded by the new bin. -/
theorem place_bin_le (n : Nat) (f : Nat → Bool) (current : Int)
    (hd : 1 < TickCount.roundDown desired) :
    ∃ b : Nat, b ≤ 62 ∧ TickCount.roundDown desired = pow2 b ∧
      (place n f desired current).bin ≤ b := by
  obtain ⟨b, hb, hb62, -⟩ := TickCount.roundDown_spec (TickCount.pos_of_one_lt_roundDown hd)
  have hcandidate : candidate n desired ≤ b := by
    rw [candidate, hb, TickCount.binOf_pow2 hb62]
    omega
  have hnf : ¬ isFault (TickCount.roundDown desired) := by
    simp only [isFault, decide_eq_true_eq]
    omega
  refine ⟨b, hb62, hb, ?_⟩
  simp only [place, if_neg hnf]
  split
  next hgrows =>
    have hlt : current < candidate n desired := of_decide_eq_true hgrows
    have hle := highestActive_le f (candidate n desired).toNat
    omega
  · exact hcandidate

theorem cadence_place_le (hd : 1 < TickCount.roundDown desired) :
    TickCount.cadence (place n f desired current).bin ≤ desired := by
  obtain ⟨b, hb62, hb, hle⟩ := place_bin_le n f current hd
  have hpos := TickCount.pos_of_one_lt_roundDown hd
  have hround := TickCount.roundDown_le (by omega : 0 ≤ desired)
  rw [hb] at hround
  exact Int.le_trans (TickCount.cadence_le_pow2 hle hb62) hround

/-- A step without a fault goes to a bin that is no higher than the one it asks for, and either no
higher than its own bin or active. -/
theorem place_spec (hn : 2 ≤ n) (hd : 1 < TickCount.roundDown desired) (h0 : 0 ≤ current) :
    ∃ b : Nat, (place n f desired current).bin = b ∧ b < n ∧ b ≤ 62 ∧
      (pow2 b : Int) ≤ TickCount.roundDown desired ∧ ((b : Int) ≤ current ∨ f b) ∧
      (1 ≤ current ∨ f 1 → 1 ≤ b) := by
  obtain ⟨c, hc, hc1, hcn, hc62, hcd⟩ := candidate_spec hn hd
  have hnf : ¬ isFault (TickCount.roundDown desired) := by
    simp only [isFault, decide_eq_true_eq]
    omega
  by_cases hg : current < c
  · have hbin : (place n f desired current).bin = max (highestActive f c) current := by
      simp only [place, if_neg hnf, grows, hc, decide_eq_true hg, if_true, Int.toNat_natCast]
    have hle := highestActive_le f c
    obtain ⟨b, hb⟩ : ∃ b : Nat, max (highestActive f c) current = b :=
      ⟨(max (highestActive f c) current).toNat, by omega⟩
    refine ⟨b, hbin.trans hb, by omega, by omega, ?_, ?_, ?_⟩
    · have : pow2 b ≤ pow2 c := pow2_le (by omega)
      omega
    · rcases highestActive_cases f c with h | ⟨a, ha, h⟩
      · exact .inl (by omega)
      · by_cases hac : (a : Int) ≤ current
        · exact .inl (by omega)
        · obtain rfl : a = b := by omega
          exact .inr ha
    · rintro (h | h)
      · omega
      · have := le_highestActive h hc1
        omega
  · have hbin : (place n f desired current).bin = c := by
      simp only [place, if_neg hnf, grows, hc, decide_eq_false hg]
      rfl
    exact ⟨c, hbin, hcn, hc62, hcd, .inl (by omega), fun _ => hc1⟩

end Assign

end BlockStep
