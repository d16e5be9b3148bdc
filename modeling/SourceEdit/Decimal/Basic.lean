set_option autoImplicit false

namespace SourceEdit

structure Decimal where
  negative : Bool
  digits : Nat
  exponent : Int
deriving DecidableEq, Repr

inductive Magnitude where
  | finite (mantissa : Nat) (exponent : Int)
  | infinite
deriving DecidableEq, Repr

namespace Decimal

def powerRatio (base : Nat) (e : Int) : Nat × Nat :=
  if 0 ≤ e then (base.pow e.toNat, 1) else (1, base.pow (-e).toNat)

def divNearest (n d : Nat) : Nat :=
  let q := n / d
  let r := n % d
  if 2 * r < d then q else if d < 2 * r then q + 1 else if q % 2 = 0 then q else q + 1

def leastExponent : Int := -1074

def greatestExponent : Int := 971

def binaryOrder (n d : Nat) : Int :=
  let e : Int := (Nat.log2 n : Int) - Nat.log2 d
  let (p, r) := powerRatio 2 e
  if d * p ≤ n * r then e else e - 1

def nearestRatio (n d : Nat) : Magnitude :=
  let e := max leastExponent (binaryOrder n d - 52)
  let (p, r) := powerRatio 2 e
  let m := divNearest (n * r) (d * p)
  let (m, e) := if m = Nat.pow 2 53 then (Nat.pow 2 52, e + 1) else (m, e)
  if greatestExponent < e then .infinite else .finite m e

/-- The magnitude nearest to a decimal. Beyond these orders only zero and infinity are near. -/
def magnitude (x : Decimal) : Magnitude :=
  let order := ((Nat.toDigits 10 x.digits).length : Int) + x.exponent
  if x.digits = 0 ∨ order < -330 then .finite 0 0
  else if 310 < order then .infinite
  else
    let (p, r) := powerRatio 10 x.exponent
    nearestRatio (x.digits * p) r

end Decimal

end SourceEdit
