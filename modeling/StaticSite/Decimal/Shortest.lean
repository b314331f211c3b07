/-! The shortest decimal of a binary floating point number.

A finite number is `m * 2 ^ q`. The reals that round to it form an interval around it, with its
ends where `m` is even. On the grid of decimals with `n` digits only the two neighbours of the
number need a test; the first grid with a neighbour inside the interval gives the digits. -/

namespace StaticSite

/-- A decimal `digits * 10 ^ exponent`. -/
structure Decimal where
  digits : Nat
  exponent : Int
  deriving DecidableEq, Repr

namespace Decimal

/-- A positive binary number `m * 2 ^ q`, and whether the gap below it is half the gap above. -/
structure Binary where
  m : Nat
  q : Int
  narrow : Bool
  deriving DecidableEq, Repr

/-- The magnitude of a finite number from its bits. -/
def Binary.ofBits (bits : UInt64) : Binary :=
  let b := bits.toNat
  let fraction := b % Nat.pow 2 52
  let exponent : Nat := b / Nat.pow 2 52 % Nat.pow 2 11
  if exponent = 0 then ⟨fraction, -1074, false⟩
  else ⟨fraction + Nat.pow 2 52, (exponent : Int) - 1075, fraction == 0 && exponent != 1⟩

/-- A ratio of natural numbers. -/
structure Ratio where
  num : Nat
  den : Nat

/-- `n * 2 ^ q * 10 ^ e` as a ratio. -/
def Ratio.scale (n : Nat) (q e : Int) : Ratio :=
  ⟨n * Nat.pow 2 q.toNat * Nat.pow 10 e.toNat, Nat.pow 2 (-q).toNat * Nat.pow 10 (-e).toNat⟩

/-- How many powers of ten reach from the number up to one, at most `fuel`. -/
def leadingZeros (num den : Nat) : Nat → Nat
  | 0 => 0
  | fuel + 1 => if den ≤ num then 0 else leadingZeros (num * 10) den fuel + 1

/-- The `p` with `10 ^ (p - 1) ≤ m * 2 ^ q < 10 ^ p`. -/
def Binary.magnitude (b : Binary) : Int :=
  let r := Ratio.scale b.m b.q 0
  if r.den ≤ r.num then (Nat.toDigits 10 (r.num / r.den)).length
  else 1 - (leadingZeros r.num r.den 400 : Int)

/-- Whether `d * 10 ^ k` rounds to the number. All bounds are in quarters of a unit. -/
def Binary.rounds (b : Binary) (d : Nat) (k : Int) : Bool :=
  let r := Ratio.scale (4 * d) (-b.q) k
  let low := 4 * b.m - (if b.narrow then 1 else 2)
  let high := 4 * b.m + 2
  if b.m % 2 = 0 then low * r.den ≤ r.num && r.num ≤ high * r.den
  else low * r.den < r.num && r.num < high * r.den

/-- The neighbour of the number with `n` digits that rounds to it, the nearer of two. -/
def Binary.onGrid? (b : Binary) (p : Int) (n : Nat) : Option Decimal :=
  let k := p - n
  let r := Ratio.scale b.m b.q (-k)
  let d := r.num / r.den
  let nearer := 2 * (r.num % r.den) < r.den || (2 * (r.num % r.den) = r.den && d % 2 = 0)
  match b.rounds d k, b.rounds (d + 1) k with
  | true, true => some ⟨if nearer then d else d + 1, k⟩
  | true, false => some ⟨d, k⟩
  | false, true => some ⟨d + 1, k⟩
  | false, false => none

/-- The shortest decimal that rounds to the number; seventeen digits always do. -/
def Binary.shortest (b : Binary) : Decimal :=
  let p := b.magnitude
  ((List.range' 1 17).findSome? (b.onGrid? p)).getD ⟨0, 0⟩

/-- Cuts trailing zeros off the digits, at most `fuel` of them. -/
def reduce (d : Decimal) : Nat → Decimal
  | 0 => d
  | fuel + 1 =>
    if d.digits ≠ 0 ∧ d.digits % 10 = 0 then reduce ⟨d.digits / 10, d.exponent + 1⟩ fuel else d

/-- The shortest decimal of the magnitude of a finite number. -/
def ofFloat (x : Float) : Decimal :=
  let b := Binary.ofBits x.toBits
  if b.m = 0 then ⟨0, 0⟩ else b.shortest.reduce 20

end Decimal

end StaticSite
