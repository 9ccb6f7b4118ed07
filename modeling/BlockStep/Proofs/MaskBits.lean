import BlockStep.Proofs.Slot
import Mathlib.Data.Int.Bitwise
import Mathlib.Data.Nat.Find

namespace BlockStep

namespace Word

theorem testBit_eq (x : Int) (b : Nat) : x.testBit b = (x / pow2 b % 2 == 1) := by
  rw [Bool.eq_iff_iff, beq_iff_eq]
  cases x with
  | ofNat k =>
    change k.testBit b = true ↔ (k : Int) / pow2 b % 2 = 1
    have hbit : k.testBit b = true ↔ k / pow2 b % 2 = 1 := by
      rw [Nat.testBit_eq_decide_div_mod_eq, decide_eq_true_eq]
      rfl
    rw [hbit]
    omega
  | negSucc k =>
    change (!k.testBit b) = true ↔ _
    have hbit : (!k.testBit b) = true ↔ ¬ k / pow2 b % 2 = 1 := by
      rw [Nat.testBit_eq_decide_div_mod_eq, Bool.not_eq_true', decide_eq_false_iff_not]
      rfl
    have hdiv : Int.negSucc k / pow2 b = -((k / pow2 b : Nat) + 1 : Int) :=
      Int.negSucc_ediv k (Int.natCast_pos.2 (pow2_pos b))
    rw [hbit, hdiv]
    omega

theorem testBit_emod (x : Int) (n b : Nat) :
    (x % pow2 n).testBit b = (decide (b < n) && x.testBit b) := by
  have hn : (0 : Int) < pow2 n := Int.natCast_pos.2 (pow2_pos n)
  rw [testBit_eq, testBit_eq]
  by_cases hb : b < n
  · obtain ⟨c, rfl⟩ := Nat.exists_eq_add_of_lt hb
    have hsplit : (pow2 (b + c + 1) : Int) = pow2 b * (2 * pow2 c) := by
      rw [pow2_succ, pow2_add, Nat.mul_left_comm]
      push_cast
      rfl
    have hdiv : x / pow2 b =
        x % pow2 (b + c + 1) / pow2 b + 2 * (pow2 c * (x / pow2 (b + c + 1))) := by
      conv_lhs => rw [← Int.emod_add_mul_ediv x (pow2 (b + c + 1))]
      rw [hsplit, Int.mul_assoc, Int.add_mul_ediv_left _ _
        (Int.ne_of_gt (Int.natCast_pos.2 (pow2_pos b))), Int.mul_assoc]
    rw [decide_eq_true hb, Bool.true_and, hdiv, Int.add_mul_emod_self_left]
  · have hle : (pow2 n : Int) ≤ pow2 b := Int.ofNat_le.2 (pow2_le (Nat.not_lt.1 hb))
    have hzero : x % pow2 n / pow2 b = 0 :=
      Int.ediv_eq_zero_of_lt (Int.emod_nonneg x (Int.ne_of_gt hn))
        (Int.lt_of_lt_of_le (Int.emod_lt_of_pos x hn) hle)
    rw [decide_eq_false hb, Bool.false_and, hzero]
    rfl

theorem testBit_pow2_pred (v b : Nat) : ((pow2 (v + 1) : Int) - 1).testBit b = decide (b ≤ v) := by
  have hpos := pow2_pos (v + 1)
  have hnat : (pow2 (v + 1) : Int) - 1 = ((2 ^ (v + 1) - 1 : Nat) : Int) := by
    have : pow2 (v + 1) = 2 ^ (v + 1) := rfl
    omega
  rw [hnat]
  change Nat.testBit _ b = _
  rw [Nat.testBit_two_pow_sub_one]
  congr 1
  exact propext Nat.lt_succ_iff

end Word

namespace Registry

variable {n : Nat}

theorem sum_pow2_succ (bs : List Nat) :
    sum (bs.map fun b => (pow2 (b + 1) : Int)) = 2 * sum (bs.map fun b => (pow2 b : Int)) := by
  induction bs with
  | nil => rfl
  | cons b bs ih =>
    rw [List.map_cons, List.map_cons, sum_cons, sum_cons, ih, pow2_succ]
    omega

theorem sum_pow2 (n : Nat) (bits : Nat → Bool) :
    sum (((List.range n).filter bits).map fun b => (pow2 b : Int)) =
      Nat.ofBits fun b : Fin n => bits b := by
  induction n generalizing bits with
  | zero => rfl
  | succ n ih =>
    have hrest := ih fun b => bits (b + 1)
    have hfilter : (List.range (n + 1)).filter bits = (if bits 0 then [0] else []) ++
        ((List.range n).filter fun b => bits (b + 1)).map Nat.succ := by
      rw [List.range_succ_eq_map, List.filter_cons, List.filter_map]
      split <;> rfl
    rw [hfilter, List.map_append, sum_append, List.map_map]
    change _ + sum (List.map (fun b => (pow2 (b + 1) : Int)) _) = _
    rw [sum_pow2_succ, hrest, Nat.ofBits_succ]
    change _ = ((2 * Nat.ofBits (fun b : Fin n => bits (b + 1)) + (bits 0).toNat : Nat) : Int)
    cases bits 0 with
    | true => simp [sum, pow2_zero]; omega
    | false => simp [sum]

theorem isActive_eq_getElem (r : Registry n) {b : Nat} (h : b < n) :
    r.isActive b = r.active[b] := by
  rw [isActive, Vector.getElem?_eq_getElem h]
  rfl

theorem not_isActive_of_le (r : Registry n) {b : Nat} (h : n ≤ b) : r.isActive b = false := by
  rw [isActive, Vector.getElem?_eq_none h]
  rfl

theorem holds_ofBits (h : n ≤ 63) (bits : Fin n → Bool) : Word.Holds (Nat.ofBits bits) := by
  have hlt : Nat.ofBits bits < pow2 63 :=
    Nat.lt_of_lt_of_le (Nat.ofBits_lt_two_pow bits) (pow2_le h)
  have h63 : pow2 63 = 0x8000000000000000 := rfl
  rw [Word.Holds, Word.least, Word.greatest]
  omega

theorem binmask_eq_ofBits (h : n ≤ 63) (r : Registry n) :
    r.binmask = Nat.ofBits fun b : Fin n => r.isActive b := by
  rw [binmask, sum_pow2, Word.wrap_eq (holds_ofBits h _)]

theorem holds_binmask (h : n ≤ 63) (r : Registry n) : Word.Holds r.binmask := by
  rw [binmask_eq_ofBits h]
  exact holds_ofBits h _

theorem testBit_binmask (h : n ≤ 63) (r : Registry n) (b : Nat) :
    r.binmask.testBit b = r.isActive b := by
  rw [binmask_eq_ofBits h]
  change Nat.testBit _ b = _
  by_cases hb : b < n
  · exact Nat.testBit_ofBits_lt _ b hb
  · rw [Nat.testBit_ofBits_ge _ b (Nat.not_lt.1 hb), r.not_isActive_of_le (Nat.not_lt.1 hb)]

/-- One bin more and the highest is the sign. -/
example : (empty 64).binmask = -1 := by decide +kernel

theorem binmask_unique (h : n ≤ 63) (r : Registry n) {x : Int} (hx : 0 ≤ x)
    (hbits : ∀ b, x.testBit b = r.isActive b) : r.binmask = x := by
  obtain ⟨k, rfl⟩ := Int.eq_ofNat_of_zero_le hx
  rw [binmask_eq_ofBits h]
  congr 1
  apply Nat.eq_of_testBit_eq
  intro b
  have hb := testBit_binmask h r b
  rw [binmask_eq_ofBits h] at hb
  exact hb.trans (hbits b).symm

theorem getElem_maskOf (x : Int) {b : Nat} (h : b < n) : (maskOf n x)[b] = x.testBit b := by
  rw [Word.testBit_eq, maskOf, Vector.getElem_ofFn]

theorem maskOf_binmask (h : n ≤ 63) (r : Registry n) : maskOf n r.binmask = r.active := by
  apply Vector.ext
  intro b hb
  rw [getElem_maskOf _ hb, testBit_binmask h, r.isActive_eq_getElem hb]

theorem binmask_of_maskOf (h : n ≤ 63) {r : Registry n} {x : Int} (hr : r.active = maskOf n x) :
    r.binmask = x % pow2 n := by
  have hpos : (pow2 n : Int) ≠ 0 := Int.natCast_ne_zero.2 (Nat.ne_of_gt (pow2_pos n))
  refine binmask_unique h r (Int.emod_nonneg x hpos) fun b => ?_
  rw [Word.testBit_emod]
  by_cases hb : b < n
  · rw [decide_eq_true hb, Bool.true_and, r.isActive_eq_getElem hb, ← getElem_maskOf x hb]
    simp only [hr]
  · rw [decide_eq_false hb, Bool.false_and, r.not_isActive_of_le (Nat.not_lt.1 hb)]

theorem setMask_toList (r : Registry n) (mask : Vector Bool n) :
    r.setMask mask.toList = .ok { r with active := mask } := dif_pos mask.length_toList

theorem setBinmask_binmask (h : n ≤ 63) (r r' : Registry n) :
    r'.setBinmask r.binmask = .ok { r' with active := r.active } := by
  rw [setBinmask, if_pos (holds_binmask h r), maskOf_binmask h]

theorem exists_setBinmask (h : n ≤ 63) (r : Registry n) {x : Int} (hx : Word.Holds x) :
    ∃ r', r.setBinmask x = .ok r' ∧ r'.binmask = x % pow2 n ∧
      ∀ b < n, r'.isActive b = x.testBit b := by
  refine ⟨{ r with active := maskOf n x }, if_pos hx, binmask_of_maskOf h rfl, ?_⟩
  intro b hb
  rw [isActive_eq_getElem _ hb]
  exact getElem_maskOf x hb

def dueBins (n : Nat) (tick : Int) : Set Nat := {b | b < n ∧ (pow2 b : Int) ∣ tick}

theorem exists_isGreatest_dueBins (hn : 0 < n) (tick : Int) :
    ∃ v, IsGreatest (dueBins n tick) v := by
  have hzero : (pow2 0 : Int) ∣ tick := Int.one_dvd tick
  refine ⟨Nat.findGreatest (fun b => (pow2 b : Int) ∣ tick) (n - 1), ⟨?_, ?_⟩, ?_⟩
  · have := Nat.findGreatest_le (P := fun b => (pow2 b : Int) ∣ tick) (n - 1)
    omega
  · exact Nat.findGreatest_spec (P := fun b => (pow2 b : Int) ∣ tick) (Nat.zero_le _) hzero
  · rintro b ⟨hb, hdvd⟩
    exact Nat.le_findGreatest (Nat.le_sub_one_of_lt hb) hdvd

theorem isActive_eq_le {r : Registry n} {tick : Int} {v : Nat}
    (hr : r.active = dueMask n tick) (hv : IsGreatest (dueBins n tick) v) (b : Nat) :
    r.isActive b = decide (b ≤ v) := by
  have hdue : r.isActive b = true ↔ b < n ∧ (b = 0 ∨ (pow2 b : Int) ∣ tick) := by
    rw [isActive, hr, getD_dueMask]
  obtain ⟨⟨hvn, hdvd⟩, hle⟩ := hv
  rw [Bool.eq_iff_iff, hdue, decide_eq_true_eq]
  constructor
  · rintro ⟨hb, rfl | hbt⟩
    · exact Nat.zero_le v
    · exact hle ⟨hb, hbt⟩
  · intro hb
    exact ⟨Nat.lt_of_le_of_lt hb hvn, .inr (Int.dvd_trans (natCast_pow2_dvd hb) hdvd)⟩

theorem binmask_of_marked (h : n ≤ 63) {r : Registry n} {tick : Int} {v : Nat}
    (hr : r.active = dueMask n tick) (hv : IsGreatest (dueBins n tick) v) :
    r.binmask = (pow2 (v + 1) : Int) - 1 := by
  have hpos := pow2_pos (v + 1)
  refine binmask_unique h r (by omega) fun b => ?_
  rw [Word.testBit_pow2_pred, isActive_eq_le hr hv]

end Registry

end BlockStep
