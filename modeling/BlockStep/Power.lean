namespace BlockStep

def pow2 (n : Nat) : Nat := Nat.pow 2 n

def pow10 (n : Nat) : Nat := Nat.pow 10 n

@[simp] theorem pow2_zero : pow2 0 = 1 := rfl

theorem pow2_succ (n : Nat) : pow2 (n + 1) = 2 * pow2 n := Nat.mul_comm (pow2 n) 2

theorem pow2_pos (n : Nat) : 0 < pow2 n := Nat.pow_pos (Nat.succ_pos 1)

theorem pow2_add (m n : Nat) : pow2 (m + n) = pow2 m * pow2 n := Nat.pow_add 2 m n

theorem pow2_dvd {m n : Nat} (h : m ≤ n) : pow2 m ∣ pow2 n := by
  obtain ⟨k, rfl⟩ := Nat.exists_eq_add_of_le h
  exact ⟨pow2 k, pow2_add m k⟩

theorem pow2_lt {m n : Nat} (h : m < n) : pow2 m < pow2 n := by
  obtain ⟨k, rfl⟩ := Nat.exists_eq_add_of_lt h
  have := pow2_pos m
  have := pow2_pos k
  rw [pow2_succ, pow2_add]
  have := Nat.le_mul_of_pos_right (pow2 m) (pow2_pos k)
  omega

end BlockStep
