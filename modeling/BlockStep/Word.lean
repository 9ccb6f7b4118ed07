namespace BlockStep.Word

/-- The number of words. -/
def span : Nat := 0x10000000000000000

def least : Int := -0x8000000000000000

def greatest : Int := 0x7fffffffffffffff

def Holds (i : Int) : Prop := least ≤ i ∧ i ≤ greatest

instance (i : Int) : Decidable (Holds i) := inferInstanceAs (Decidable (_ ∧ _))

/-- The word that agrees with `i` modulo `span`. -/
def wrap (i : Int) : Int := Int.bmod i span

theorem wrap_eq {i : Int} (h : Holds i) : wrap i = i := by
  simp only [Holds, least, greatest] at h
  rw [wrap, span, Int.bmod_eq_of_le] <;> omega

end BlockStep.Word
