namespace ClassDeps.Text

/-- The parts before and after the first `c`. -/
def splitFirst? (c : Char) : List Char → Option (List Char × List Char)
  | [] => none
  | x :: xs =>
    if x = c then some ([], xs)
    else (splitFirst? c xs).map fun parts => (x :: parts.1, parts.2)

/-- The parts before and after the last `c`. -/
def splitLast? (c : Char) : List Char → Option (List Char × List Char)
  | [] => none
  | x :: xs =>
    match splitLast? c xs with
    | some parts => some (x :: parts.1, parts.2)
    | none => if x = c then some ([], xs) else none

/-- The parts between the places where `c` is, of which there is always one. -/
def splitAll (c : Char) : List Char → List (List Char)
  | [] => [[]]
  | x :: xs =>
    match splitAll c xs with
    | first :: rest => if x = c then [] :: first :: rest else (x :: first) :: rest
    | [] => [[x]]

end ClassDeps.Text
