import ClassDeps.Text.Split
import ClassDeps.Text.Utf8
import ClassDeps.Url.Letters
import ClassDeps.Url.Percent
import ClassDeps.Url.Punycode

namespace ClassDeps.Domain

/-- The character of a domain name that a typed one means: small letters for capitals, ASCII for
its wide forms, and a dot for other full stops. -/
def fold (c : Char) : Char :=
  let n := c.toNat
  if c = '。' ∨ c = '｡' then '.'
  else if 0xff01 ≤ n ∧ n ≤ 0xff5e then (Char.ofNat (n - 0xff01 + '!'.toNat)).toLower
  else c.toLower

/-- Whether a character of ASCII has no place in a domain name. -/
def isDenied (c : Char) : Bool :=
  c.toNat ≤ 0x20 || c.toNat = 0x7f || "%#/:<>?@[\\]^|".toList.contains c

def isRefused (c : Char) : Bool :=
  isDenied c || isIn refusedRuns c

/-- A label does not begin with a character that combines with the one before. -/
def beginsWell (label : List Char) : Bool :=
  match label with
  | [] => true
  | c :: _ => !isIn markRuns c

/-- The text of an encoded label: it needs the encoding, and holds what a label may hold. -/
def decodeLabel? (code : List Char) : Option (List Char) := do
  let label ← Punycode.decode? code
  if label.all Punycode.isBasic || label.any isRefused || label.any (isIn ignoredRuns) ||
    !beginsWell label then none else some label

/-- The form of a label in ASCII. -/
def encodeLabel? (label : List Char) : Option (List Char) :=
  match label with
  | 'x' :: 'n' :: '-' :: '-' :: code => (decodeLabel? code).map fun _ => label
  | _ =>
    if label.all Punycode.isBasic then some label
    else if beginsWell label then some ("xn--".toList ++ Punycode.encode label)
    else none

/-- The domain name that a text with escapes means. -/
def ofText? (text : List Char) : Option (List Char) := do
  let typed ← Text.Utf8.decode? (Percent.decode text)
  let name := (typed.filter (!isIn ignoredRuns ·)).map fold
  if name.any isRefused then none
  else
    let labels ← (Text.splitAll '.' name).mapM encodeLabel?
    some ((['.'] : List Char).intercalate labels)

end ClassDeps.Domain
