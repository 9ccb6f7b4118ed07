import BlockStep.Scalar

namespace BlockStep

structure Vec3 (α : Type) where
  x : α
  y : α
  z : α
deriving DecidableEq, Repr

namespace Vec3

variable {α β : Type}

def map (f : α → β) (v : Vec3 α) : Vec3 β := ⟨f v.x, f v.y, f v.z⟩

def toList (v : Vec3 α) : List α := [v.x, v.y, v.z]

variable [Scalar α]

def zero : Vec3 α := ⟨0.0, 0.0, 0.0⟩

instance : Inhabited (Vec3 α) := ⟨zero⟩

instance : Add (Vec3 α) := ⟨fun v w => ⟨v.x + w.x, v.y + w.y, v.z + w.z⟩⟩

instance : Sub (Vec3 α) := ⟨fun v w => ⟨v.x - w.x, v.y - w.y, v.z - w.z⟩⟩

instance : Neg (Vec3 α) := ⟨map fun c => -c⟩

def scale (v : Vec3 α) (c : α) : Vec3 α := v.map (· * c)

def normSq (v : Vec3 α) : α := v.x * v.x + v.y * v.y + v.z * v.z

def norm (v : Vec3 α) : α := Scalar.sqrt v.normSq

end Vec3

end BlockStep
