namespace ClassDeps

/-- The number `mantissa * 2 ^ exponent`. A rounded one has `mantissa < 2 ^ 53`, and its exponent is
the least that allows this, but not below `-1074`. -/
structure Binary64 where
  mantissa : Nat
  exponent : Int
deriving DecidableEq, Repr

namespace Binary64

def zero : Binary64 := ⟨0, -1074⟩

def numerator (x : Binary64) : Nat := x.mantissa * Nat.pow 2 x.exponent.toNat

def denominator (x : Binary64) : Nat := Nat.pow 2 (-x.exponent).toNat

/-- The integer nearest to `n / d`, of two equally near the even one. -/
def nearest (n d : Nat) : Nat :=
  let quotient := n / d
  let twice := 2 * (n % d)
  if twice < d ∨ twice = d ∧ quotient % 2 = 0 then quotient else quotient + 1

/-- The exponent for `n / d`: the one that puts the mantissa between `2 ^ 52` and `2 ^ 53`, if it is
not below the least one. -/
def exponentOf (n d : Nat) : Int :=
  let wide : Int := n.log2 - d.log2 - 52
  let low := n * Nat.pow 2 (-wide).toNat < Nat.pow 2 52 * (d * Nat.pow 2 wide.toNat)
  max (-1074) (if low then wide - 1 else wide)

/-- The number nearest to `n / d`, of two equally near the one with an even mantissa. There is none
if `n / d` is too large. -/
def round? (n d : Nat) : Option Binary64 :=
  if n = 0 then some zero
  else
    let e := exponentOf n d
    let m := nearest (n * Nat.pow 2 (-e).toNat) (d * Nat.pow 2 e.toNat)
    let rounded : Binary64 := if m = Nat.pow 2 53 then ⟨Nat.pow 2 52, e + 1⟩ else ⟨m, e⟩
    if 971 < rounded.exponent then none else some rounded

def times? (x y : Binary64) : Option Binary64 :=
  round? (x.numerator * y.numerator) (x.denominator * y.denominator)

def over? (x y : Binary64) : Option Binary64 :=
  round? (x.numerator * y.denominator) (x.denominator * y.numerator)

def powerOfTen? (e : Nat) : Option Binary64 := round? (Nat.pow 10 e) 1

/-- `x * 10 ^ e`, where the power is rounded before the product is. -/
def scaleUp? (x : Binary64) (e : Nat) : Option Binary64 :=
  if x = zero then some zero
  else if 308 < e then none
  else (powerOfTen? e).bind x.times?

/-- `x / 10 ^ e`, where the power is rounded before the quotient is. Beyond the largest power the
division goes in steps. -/
def scaleDown? (x : Binary64) (e : Nat) : Option Binary64 :=
  if e ≤ 308 then (powerOfTen? e).bind x.over?
  else if x = zero then some zero
  else ((powerOfTen? 308).bind x.over?).bind (scaleDown? · (e - 308))
termination_by e

/-- `significand * 10 ^ e`, every step rounded. -/
def ofScientific? (significand : Nat) (e : Int) : Option Binary64 :=
  (round? significand 1).bind fun x =>
    if 0 ≤ e then x.scaleUp? e.toNat else x.scaleDown? (-e).toNat

end Binary64

end ClassDeps
