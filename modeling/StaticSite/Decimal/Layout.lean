import StaticSite.Decimal.Shortest

/-! The written form of a decimal: positional, or with an exponent. -/

namespace StaticSite.Decimal

/-- What a format decides about a number's text. -/
structure Layout where
  /-- Written after a number without a fractional part. -/
  whole : String
  /-- The powers of ten below which, and from which on, an exponent is written, if any. -/
  positional : Option (Int × Int)

def zeros (n : Nat) : List Char := List.replicate n '0'

/-- Digits with the point where the exponent says. -/
def writePositional (whole : String) (d : Decimal) : List Char :=
  let ds := Nat.toDigits 10 d.digits
  if 0 ≤ d.exponent then ds ++ zeros d.exponent.toNat ++ whole.toList
  else
    let places := (-d.exponent).toNat
    let ds := zeros (places + 1 - ds.length) ++ ds
    ds.take (ds.length - places) ++ ['.'] ++ ds.drop (ds.length - places)

/-- One digit before the point, and a signed exponent. -/
def writeScientific (d : Decimal) : List Char :=
  let ds := Nat.toDigits 10 d.digits
  let e := d.exponent + ds.length - 1
  let fraction := if ds.length = 1 then [] else '.' :: ds.drop 1
  ds.take 1 ++ fraction ++ ['e', if 0 ≤ e then '+' else '-'] ++ Nat.toDigits 10 e.natAbs

/-- The text of a magnitude. -/
def Layout.magnitude (l : Layout) (d : Decimal) : List Char :=
  let leading := d.exponent + (Nat.toDigits 10 d.digits).length - 1
  match l.positional with
  | none => writePositional l.whole d
  | some (low, high) =>
    if d.digits = 0 ∨ (low ≤ leading ∧ leading < high) then writePositional l.whole d
    else writeScientific d

end StaticSite.Decimal
