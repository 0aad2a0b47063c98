import ClassDeps.ClassFile.Malformed

namespace ClassDeps.ClassFile.Signature

def isPrimitive (c : Char) : Bool :=
  "BCDFIJSZ".toList.contains c

/-- The characters that end the name of a class. -/
def endsName (c : Char) : Bool :=
  c = '<' || c = '.' || c = ';'

/-- The class names found, in the order in which their types end, and the text that follows. -/
abbrev Found := Option (List String × List Char)

mutual

/-- The reference type that starts with `c`. -/
def reference : Nat → Char → List Char → Found
  | 0, _, _ => none
  | n + 1, c, cs =>
    if c = 'L' then
      classType n (cs.takeWhile (!endsName ·)) (cs.dropWhile (!endsName ·))
    else if c = 'T' then
      match cs.dropWhile (· ≠ ';') with
      | _ :: rest => some ([], rest)
      | [] => none
    else if c = '[' then
      match cs with
      | [] => none
      | d :: rest => if isPrimitive d then some ([], rest) else reference n d rest
    else none

/-- The rest of a class type whose name so far is `name`: type arguments, inner classes, which
extend the name, and the final semicolon. -/
def classType : Nat → List Char → List Char → Found
  | 0, _, _ => none
  | n + 1, name, c :: cs =>
    if c = '<' then do
      let (inner, cs) ← arguments n cs
      let (outer, cs) ← classType n name cs
      some (inner ++ outer, cs)
    else if c = '.' then
      classType n (name ++ '$' :: cs.takeWhile (!endsName ·)) (cs.dropWhile (!endsName ·))
    else if c = ';' then
      if name.isEmpty then none else some ([String.ofList name], cs)
    else none
  | _ + 1, _, [] => none

/-- The type arguments up to and including the closing bracket. -/
def arguments : Nat → List Char → Found
  | 0, _ => none
  | _ + 1, [] => none
  | n + 1, c :: cs =>
    if c = '>' then some ([], cs)
    else if c = '*' then arguments n cs
    else if c = '+' || c = '-' then
      match cs with
      | [] => none
      | d :: cs => do
        let (first, cs) ← reference n d cs
        let (others, cs) ← arguments n cs
        some (first ++ others, cs)
    else do
      let (first, cs) ← reference n c cs
      let (others, cs) ← arguments n cs
      some (first ++ others, cs)

end

/-- Type parameters up to and including the closing bracket: names, each followed by bounds after
colons. A bound may be empty. -/
def parameters : Nat → List Char → Found
  | 0, _ => none
  | _ + 1, [] => none
  | n + 1, c :: cs =>
    if c = '>' then some ([], cs)
    else if c = ':' then
      match cs with
      | d :: rest =>
        if d = 'L' || d = 'T' || d = '[' then do
          let (first, rest) ← reference n d rest
          let (others, rest) ← parameters n rest
          some (first ++ others, rest)
        else parameters n cs
      | [] => none
    else
      match cs.dropWhile (· ≠ ':') with
      | [] => none
      | rest => parameters n rest

/-- Types and the marks between them, to the end of the text. -/
def types : Nat → List Char → Option (List String)
  | _, [] => some []
  | 0, _ => none
  | n + 1, c :: cs =>
    if c = '(' || c = ')' || c = '^' || c = 'V' || isPrimitive c then types n cs
    else do
      let (first, cs) ← reference n c cs
      let others ← types n cs
      some (first ++ others)

/-- The class names in a whole signature. -/
def classNames (text : List Char) : Option (List String) :=
  let depth := 2 * text.length + 2
  match text with
  | '<' :: cs => do
    let (bounds, cs) ← parameters depth cs
    let others ← types depth cs
    some (bounds ++ others)
  | cs => types depth cs

/-- The internal name of every class type that a signature mentions. -/
def referencedTypes (text : String) : Except Malformed (List String) :=
  match classNames text.toList with
  | some names => .ok names
  | none => .error (.descriptor text)

end ClassDeps.ClassFile.Signature
