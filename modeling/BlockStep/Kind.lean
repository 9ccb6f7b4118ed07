namespace BlockStep.Kind

def gas : Int := 0

def halo : Int := 1

def disk : Int := 2

def bulge : Int := 3

def star : Int := 4

def hole : Int := 5

/-- Number of kinds. -/
def count : Nat := 6

def names : List String := ["gas", "halo", "disk", "bulge", "stars", "bndry"]

def Exists (kind : Int) : Prop := 0 ≤ kind ∧ kind < count

instance (kind : Int) : Decidable (Exists kind) := inferInstanceAs (Decidable (_ ∧ _))

def name (kind : Nat) : String := names.getD kind ""

end BlockStep.Kind
