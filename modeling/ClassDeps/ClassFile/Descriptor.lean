import ClassDeps.ClassFile.Signature

namespace ClassDeps.ClassFile.Descriptor

/-- An array type has at most this many dimensions. -/
def maxDimensions : Nat := 255

/-- The class that a type names, if any, and the text after the type. The argument counts the
array brackets before the type. -/
def typeClass : Nat → List Char → Option (Option String × List Char)
  | _, [] => none
  | dimensions, c :: cs =>
    if "ZBCSIJFDV".toList.contains c then some (none, cs)
    else if c = 'L' then
      match cs.dropWhile (· ≠ ';') with
      | _ :: rest => some (some (String.ofList (cs.takeWhile (· ≠ ';'))), rest)
      | [] => none
    else if c = '[' then
      if dimensions < maxDimensions then typeClass (dimensions + 1) cs else none
    else none

theorem length_lt_of_typeClass {dimensions : Nat} {cs rest : List Char} {name : Option String}
    (h : typeClass dimensions cs = some (name, rest)) : rest.length < cs.length := by
  induction cs generalizing dimensions with
  | nil => simp [typeClass] at h
  | cons c cs ih =>
    rw [typeClass] at h
    split at h
    · simp only [Option.some.injEq, Prod.mk.injEq] at h
      simp [h.2]
    · split at h
      · split at h
        · rename_i d tail hd
          have hlen := (List.dropWhile_suffix (l := cs) fun x => decide (x ≠ ';')).length_le
          simp only [Option.some.injEq, Prod.mk.injEq] at h
          rw [hd, h.2] at hlen
          simp only [List.length_cons] at hlen ⊢
          omega
        · simp at h
      · split at h
        · split at h
          · exact Nat.lt_succ_of_lt (ih h)
          · simp at h
        · simp at h

/-- The classes of the parameters, up to the closing parenthesis, and the text after it. -/
def parameterClasses (cs : List Char) : Option (List String × List Char) :=
  match cs with
  | [] => none
  | ')' :: rest => some ([], rest)
  | cs =>
    match _h : typeClass 0 cs with
    | none => none
    | some (name, rest) =>
      (parameterClasses rest).map fun found => (name.toList ++ found.1, found.2)
termination_by cs.length
decreasing_by exact length_lt_of_typeClass _h

/-- The classes of the parameters and then of the result. Text after the result is not read. -/
def methodClasses : List Char → Option (List String)
  | '(' :: cs => do
    let (names, rest) ← parameterClasses cs
    let (result, _) ← typeClass 0 rest
    some (names ++ result.toList)
  | _ => none

/-- The class types of a method descriptor. -/
def methodTypeNames (text : String) : Except Malformed (List String) :=
  match methodClasses text.toList with
  | some names => .ok names
  | none => .error (.descriptor text)

/-- The class types of a field descriptor. -/
def fieldTypeNames (text : String) : Except Malformed (List String) :=
  Signature.referencedTypes text

/-- The class that a class constant stands for: itself, or the element class of an array. An array
of primitives stands for none. -/
def elementClass? (name : String) : Option String :=
  match name.toList with
  | '[' :: cs =>
    match cs.dropWhile (· = '[') with
    | 'L' :: element =>
      if element.getLast? = some ';' then some (String.ofList element.dropLast) else none
    | _ => none
  | _ => some name

/-- The dotted form of a name written with slashes. -/
def dotted (name : String) : String :=
  String.ofList (name.toList.map fun c => if c = '/' then '.' else c)

end ClassDeps.ClassFile.Descriptor
