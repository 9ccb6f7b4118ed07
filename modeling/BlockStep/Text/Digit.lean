namespace BlockStep.Text

/-- The zeros of the scripts with decimal digits. -/
def zeros : List Nat :=
  [0x30, 0x660, 0x6F0, 0x7C0, 0x966, 0x9E6, 0xA66, 0xAE6, 0xB66, 0xBE6, 0xC66, 0xCE6, 0xD66, 0xDE6,
    0xE50, 0xED0, 0xF20, 0x1040, 0x1090, 0x17E0, 0x1810, 0x1946, 0x19D0, 0x1A80, 0x1A90, 0x1B50,
    0x1BB0, 0x1C40, 0x1C50, 0xA620, 0xA8D0, 0xA900, 0xA9D0, 0xA9F0, 0xAA50, 0xABF0, 0xFF10, 0x104A0,
    0x10D30, 0x11066, 0x110F0, 0x11136, 0x111D0, 0x112F0, 0x11450, 0x114D0, 0x11650, 0x116C0,
    0x11730, 0x118E0, 0x11950, 0x11C50, 0x11D50, 0x11DA0, 0x11F50, 0x16A60, 0x16AC0, 0x16B50,
    0x1D7CE, 0x1D7D8, 0x1D7E2, 0x1D7EC, 0x1D7F6, 0x1E140, 0x1E2F0, 0x1E4F0, 0x1E950, 0x1FBF0]

/-- The value of a decimal digit. -/
def digit? (c : Char) : Option Nat :=
  (zeros.find? fun z => z ≤ c.toNat && c.toNat < z + 10).map (c.toNat - ·)

/-- The ASCII form of a decimal digit; any other character stays. -/
def plain (c : Char) : Char :=
  match digit? c with
  | some d => Char.ofNat (48 + d)
  | none => c

def isAsciiDigit (c : Char) : Bool := '0' ≤ c && c ≤ '9'

/-- The value of a list of ASCII digits in base ten. -/
def natOfDigits (cs : List Char) : Nat := cs.foldl (fun n c => 10 * n + (c.toNat - 48)) 0

def hexDigits (n : Nat) : String := String.ofList (Nat.toDigits 16 n)

def hex (i : Int) : String :=
  (if i < 0 then "-0x" else "0x") ++ hexDigits i.natAbs

/-- `n` in base ten, filled with zeros on the left to `width` places, the sign included. -/
def padded (width : Nat) (i : Int) : String :=
  let digits := toString i.natAbs
  let mark := if i < 0 then "-" else ""
  mark ++ String.ofList (List.replicate (width - (mark.length + digits.length)) '0') ++ digits

end BlockStep.Text
