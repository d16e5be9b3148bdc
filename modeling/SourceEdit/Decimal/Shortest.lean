import SourceEdit.Decimal.Basic
import SourceEdit.Text.Basic

set_option autoImplicit false

namespace SourceEdit.Decimal

/-- The numbers that are rounded to one binary number, in quarters of its last digit: its value, the
ends of the interval, and whether these belong to it. -/
structure Rounding where
  value : Nat
  low : Nat
  high : Nat
  closed : Bool
  /-- One quarter is `2 ^ exponent`. -/
  exponent : Int

def rounding (mantissa : Nat) (exponent : Int) : Rounding :=
  let isPower := mantissa = Nat.pow 2 52 ∧ leastExponent < exponent
  ⟨4 * mantissa, if isPower then 4 * mantissa - 1 else 4 * mantissa - 2, 4 * mantissa + 2,
    mantissa % 2 = 0, exponent - 2⟩

def Rounding.reads (r : Rounding) (c : Nat) (k : Int) : Bool :=
  let (p, q) := powerRatio 10 k
  let (s, t) := powerRatio 2 r.exponent
  let x := c * p * t
  let unit := s * q
  if r.closed then r.low * unit ≤ x && x ≤ r.high * unit
  else r.low * unit < x && x < r.high * unit

def Rounding.candidates (r : Rounding) (k : Int) : List Nat :=
  let (p, q) := powerRatio 10 k
  let (s, t) := powerRatio 2 r.exponent
  let n := r.value * s * q
  let d := p * t
  let below := n / d
  let order := if 2 * (n % d) ≤ d then [below, below + 1] else [below + 1, below]
  order.filter (r.reads · k)

def decimalOrder (mantissa : Nat) (exponent : Int) : Int :=
  let (s, t) := powerRatio 2 exponent
  let n := mantissa * s
  let isBelow (e : Int) : Bool :=
    let (p, q) := powerRatio 10 e
    n * q < p * t
  let guess : Int := ((Nat.toDigits 10 n).length : Int) - (Nat.toDigits 10 t).length
  if isBelow guess then guess else guess + 1

def shortest (mantissa : Nat) (exponent : Int) : Text × Int :=
  let r := rounding mantissa exponent
  let order := decimalOrder mantissa exponent
  let found := (List.range 17).findSome? fun i =>
    let k := order - ((i + 1 : Nat) : Int)
    (r.candidates k).head?.map fun c => (c, k)
  match found with
  | none => (['0'], 1)
  | some (c, k) =>
    let ds := Nat.toDigits 10 c
    (Text.dropEndWhile ds (· = '0'), (ds.length : Int) + k)

def zeros (n : Nat) : Text := List.replicate n '0'

def placed (digits : Text) (place : Int) : Text :=
  if place ≤ -4 ∨ 16 < place then
    let e := place - 1
    let size := Nat.toDigits 10 e.natAbs
    let fraction := digits.drop 1
    digits.take 1 ++ (if fraction.isEmpty then [] else '.' :: fraction) ++
      ['e', if e < 0 then '-' else '+'] ++ zeros (2 - size.length) ++ size
  else if place ≤ 0 then ['0', '.'] ++ zeros (-place).toNat ++ digits
  else
    let whole := place.toNat
    let fraction := digits.drop whole
    digits.take whole ++ zeros (whole - digits.length) ++ '.' ::
      (if fraction.isEmpty then ['0'] else fraction)

def shown (x : Decimal) : Text :=
  let size : Text :=
    match x.magnitude with
    | .infinite => ['i', 'n', 'f']
    | .finite 0 _ => ['0', '.', '0']
    | .finite m e => let (ds, place) := shortest m e; placed ds place
  if x.negative then '-' :: size else size

end SourceEdit.Decimal
