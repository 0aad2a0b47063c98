namespace ClassDeps.Text

/-- `n` in a base of at most sixteen, with at least `width` digits. -/
def numeral (base width n : Nat) : String :=
  let digits := Nat.toDigits base n
  String.ofList (List.replicate (width - digits.length) '0' ++ digits)

/-- `n` in binary, with at least `width` digits. -/
def binary (width n : Nat) : String := numeral 2 width n

/-- `n` in lower-case hexadecimal, with at least `width` digits. -/
def hex (width n : Nat) : String := numeral 16 width n

/-- `n` in upper-case hexadecimal, with at least `width` digits. -/
def hexUpper (width n : Nat) : String :=
  String.ofList ((hex width n).toList.map Char.toUpper)

/-- The value of a digit, in either case. -/
def hexDigit? (c : Char) : Option Nat :=
  if '0' ≤ c ∧ c ≤ '9' then some (c.toNat - '0'.toNat)
  else if 'a' ≤ c ∧ c ≤ 'f' then some (c.toNat - 'a'.toNat + 10)
  else if 'A' ≤ c ∧ c ≤ 'F' then some (c.toNat - 'A'.toNat + 10)
  else none

end ClassDeps.Text
