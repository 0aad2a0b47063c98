import ClassDeps.Json.Binary64
import Std.Data.ExtTreeMap

namespace ClassDeps

namespace Json

inductive Number where
  | natural (n : Nat)
  /-- The integer `-n`, below zero. -/
  | negative (n : Nat)
  | float (negative : Bool) (magnitude : Binary64)
deriving DecidableEq, Repr

/-- The value as a fraction. -/
def Number.ratio : Number → Int × Nat
  | natural n => (n, 1)
  | negative n => (-n, 1)
  | float true x => (-x.numerator, x.denominator)
  | float false x => (x.numerator, x.denominator)

/-- Equality of value, so an integer may equal a float. -/
def Number.same (a b : Number) : Bool :=
  a.ratio.1 * b.ratio.2 = b.ratio.1 * a.ratio.2

end Json

inductive Json where
  | null
  | bool (value : Bool)
  | number (value : Json.Number)
  | text (value : String)
  | array (items : List Json)
  | object (fields : List (String × Json))

namespace Json

/-- The fields of an object by key. The last of one key counts. -/
def members (fields : List (String × Json)) : Std.ExtTreeMap String Json :=
  .ofList fields

/-- The object with these fields, in the order of their keys. The last of one key counts. -/
def ofFields (fields : List (String × Json)) : Json :=
  .object (members fields).toList

def ofNat (n : Nat) : Json := .number (.natural n)

mutual

/-- Equality of two values whose objects are in the order of their keys. -/
def same : Json → Json → Bool
  | null, null => true
  | bool a, bool b => a = b
  | number a, number b => a.same b
  | text a, text b => a = b
  | array a, array b => sameItems a b
  | object a, object b => sameFields a b
  | _, _ => false

def sameItems : List Json → List Json → Bool
  | [], [] => true
  | a :: as, b :: bs => same a b && sameItems as bs
  | _, _ => false

def sameFields : List (String × Json) → List (String × Json) → Bool
  | [], [] => true
  | (k, a) :: as, (l, b) :: bs => k = l && same a b && sameFields as bs
  | _, _ => false

end

/-- No two of the values are equal. -/
def distinct : List Json → Bool
  | [] => true
  | x :: xs => !xs.any (same x) && distinct xs

end Json

end ClassDeps
