import ClassDeps.Text.Hex

namespace ClassDeps.Percent

def escape (b : UInt8) : List Char := '%' :: (Text.hexUpper 2 b.toNat).toList

/-- The text with the characters of a set escaped, each byte of theirs on its own. -/
def encode (isEscaped : Char → Bool) (text : List Char) : List Char :=
  text.flatMap fun c => if isEscaped c then (String.utf8EncodeChar c).flatMap escape else [c]

/-- The bytes that a text stands for. A `%` with no two digits after it stands for itself. -/
def decode : List Char → List UInt8
  | [] => []
  | '%' :: a :: b :: rest =>
    match Text.hexDigit? a, Text.hexDigit? b with
    | some high, some low => (16 * high + low).toUInt8 :: decode rest
    | _, _ => '%'.toNat.toUInt8 :: decode (a :: b :: rest)
  | c :: rest => String.utf8EncodeChar c ++ decode rest

end ClassDeps.Percent
