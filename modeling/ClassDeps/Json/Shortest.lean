import ClassDeps.Json.Binary64

namespace ClassDeps

/-- The number `digits * 10 ^ exponent`. -/
structure Decimal where
  digits : Nat
  exponent : Int
deriving DecidableEq, Repr

namespace Binary64

/-- Four times the mantissa and the ends of the interval that rounds to `x`, in that unit. The
interval is half as wide below a power of two, where the numbers lie twice as dense. -/
def interval (x : Binary64) : Nat × Nat × Nat :=
  let m := 4 * x.mantissa
  (if x.mantissa = Nat.pow 2 52 ∧ -1074 < x.exponent then m - 1 else m - 2, m, m + 2)

/-- `d * 10 ^ k` rounds to `x`. -/
def covers (x : Binary64) (k : Int) (d : Nat) : Bool :=
  let (low, _, high) := x.interval
  let q := x.exponent - 2
  let point := d * Nat.pow 10 k.toNat * Nat.pow 2 (-q).toNat
  let unit := Nat.pow 2 q.toNat * Nat.pow 10 (-k).toNat
  if x.mantissa % 2 = 0 then low * unit ≤ point && point ≤ high * unit
  else low * unit < point && point < high * unit

/-- The multiple of `10 ^ k` that is nearest to `x` among its two neighbours that round to it. -/
def onGrid? (x : Binary64) (k : Int) : Option Decimal :=
  let n := x.numerator * Nat.pow 10 (-k).toNat
  let d := x.denominator * Nat.pow 10 k.toNat
  let near := nearest n d
  let floor := n / d
  if x.covers k near then some ⟨near, k⟩
  else if x.covers k floor then some ⟨floor, k⟩
  else if x.covers k (floor + 1) then some ⟨floor + 1, k⟩
  else none

/-- The decimal on the coarsest grid that has one. -/
def shortest (x : Binary64) : Decimal :=
  if x.mantissa = 0 then ⟨0, 0⟩
  else ((List.range 640).findSome? fun i : Nat => x.onGrid? (309 - (i : Int))).getD ⟨0, 0⟩

end Binary64

namespace Decimal

/-- Positional between `10 ^ (-5)` and `10 ^ 16`, always with a fraction; scientific elsewhere, the
exponent with its sign. -/
def text (x : Decimal) : String :=
  let digits := (toString x.digits).toList
  let point : Int := digits.length + x.exponent
  let zeros (n : Int) := List.replicate n.toNat '0'
  if 0 < point ∧ point ≤ 16 then
    let whole := digits.take point.toNat ++ zeros x.exponent
    let fraction := digits.drop point.toNat
    String.ofList (whole ++ '.' :: if fraction.isEmpty then ['0'] else fraction)
  else if -5 < point ∧ point ≤ 0 then
    String.ofList ('0' :: '.' :: zeros (-point) ++ digits)
  else
    let tail := if digits.length = 1 then [] else '.' :: digits.drop 1
    let e := point - 1
    let sign := if e < 0 then "-" else "+"
    String.ofList (digits.take 1 ++ tail) ++ "e" ++ sign ++ toString e.natAbs

end Decimal

end ClassDeps
