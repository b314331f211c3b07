/-! The value of a JSON number.

Digits are read into a 64-bit significand; those that no longer fit move the exponent or are
dropped. The significand is then scaled by powers of ten in floating point. -/

namespace StaticSite.Json

/-- A JSON number as written. -/
structure NumberText where
  negative : Bool
  whole : List Nat
  fraction : Option (List Nat)
  exponent : Option (Bool × List Nat)

/-- A significand on the way: its value, the power of ten that goes with it, and whether it is
full. -/
structure Significand where
  value : Nat
  exponent : Int
  full : Bool

def maxWord : Nat := Nat.pow 2 64 - 1

/-- One more digit before the point. -/
def Significand.whole (s : Significand) (d : Nat) : Significand :=
  if s.full || maxWord < s.value * 10 + d then ⟨s.value, s.exponent + 1, true⟩
  else ⟨s.value * 10 + d, s.exponent, false⟩

/-- One more digit behind the point. -/
def Significand.fraction (s : Significand) (d : Nat) : Significand :=
  if s.full || maxWord < s.value * 10 + d then ⟨s.value, s.exponent, true⟩
  else ⟨s.value * 10 + d, s.exponent - 1, false⟩

def powerOfTen (n : Nat) : Float := Float.ofScientific 1 false n

/-- `f * 10 ^ e`, in steps that stay in range; none on overflow. Three steps end every loop,
because a quotient is then zero. -/
def scaleByTen? (f : Float) (e : Int) : Nat → Option Float
  | 0 => some f
  | fuel + 1 =>
    if e.natAbs ≤ 308 then
      if 0 ≤ e then
        let r := f * powerOfTen e.natAbs
        if r.isInf then none else some r
      else some (f / powerOfTen e.natAbs)
    else if f == 0 then some f
    else if 0 ≤ e then none
    else scaleByTen? (f / powerOfTen 308) (e + 308) fuel

/-- The largest exponent that is read as a number. -/
def maxExponent : Nat := Nat.pow 2 31 - 1

def clampExponent (e : Int) : Int := max (-(maxExponent : Int) - 1) (min maxExponent e)

def ofDigits (ds : List Nat) : Nat := ds.foldl (fun n d => 10 * n + d) 0

/-- The value of a number; none where it is out of range. -/
def NumberText.value? (t : NumberText) : Option Float :=
  let s := t.whole.foldl Significand.whole ⟨0, 0, false⟩
  let s := (t.fraction.getD []).foldl Significand.fraction { s with full := false }
  let f := (UInt64.ofNat s.value).toFloat
  let magnitude :=
    match t.exponent with
    | none => if s.exponent = 0 then some f else scaleByTen? f s.exponent 8
    | some (positive, ds) =>
      let e := ofDigits ds
      if maxExponent < e then
        if s.value ≠ 0 ∧ positive then none else some 0
      else scaleByTen? f (clampExponent (if positive then s.exponent + e else s.exponent - e)) 8
  magnitude.map fun f => if t.negative then -f else f

end StaticSite.Json
