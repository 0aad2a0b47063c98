import ClassDeps.Proofs.ClassFile.ArrayTypes
import ClassDeps.Proofs.ClassFile.SignatureReading

namespace ClassDeps.ClassFile.Descriptor

open Signature (BaseType Found Reads Stopped Written endsName isPrimitive typesAt)

/-- The name of a class with the packages in front of it. -/
structure ClassName where
  text : List Char
  nonempty : text ≠ []
  plain : ∀ c ∈ text, c ∉ ['.', ';', '[', '<']

/-- What an array is made of, whatever its dimensions. -/
inductive ElementType where
  | base (type : BaseType)
  | object (name : ClassName)

namespace ElementType

def text : ElementType → List Char
  | base type => [type.letter]
  | object name => 'L' :: (name.text ++ [';'])

def class? : ElementType → Option String
  | base _ => none
  | object name => some (String.ofList name.text)

end ElementType

/-- A type with the number of its array dimensions, which may be zero. -/
structure FieldType where
  dimensions : Nat
  element : ElementType
  limited : dimensions ≤ 255

namespace FieldType

def text (t : FieldType) : List Char :=
  List.replicate t.dimensions '[' ++ t.element.text

/-- The class of the elements, if they have one. -/
def classes (t : FieldType) : List String :=
  t.element.class?.toList

end FieldType

/-- The types of a method. The result is absent if it returns nothing. -/
structure MethodType where
  parameters : List FieldType
  result : Option FieldType

namespace MethodType

def text (m : MethodType) : List Char :=
  '(' :: (m.parameters.flatMap FieldType.text ++ ')' :: m.result.elim ['V'] FieldType.text)

/-- The classes of the parameters and then of the result. -/
def classes (m : MethodType) : List String :=
  m.parameters.flatMap FieldType.classes ++ m.result.elim [] FieldType.classes

end MethodType

theorem typeClass_element (e : ElementType) (dimensions : Nat) (rest : List Char) :
    typeClass dimensions (e.text ++ rest) = some (e.class?, rest) := by
  cases e with
  | base type => cases type <;> rfl
  | object name =>
    have hname : ∀ c ∈ name.text, decide (c ≠ ';') = true := by
      intro c hc
      refine decide_eq_true fun heq => name.plain c hc ?_
      simp [heq]
    rw [ElementType.text, List.cons_append, List.append_assoc, List.singleton_append, typeClass,
      if_neg (by decide), if_pos rfl, List.dropWhile_append_of_pos hname,
      List.takeWhile_append_of_pos hname, List.dropWhile_cons_of_neg (by decide),
      List.takeWhile_cons_of_neg (by decide), List.append_nil]
    rfl

theorem typeClass_replicate {dimensions n : Nat} (h : dimensions + n ≤ maxDimensions)
    (cs : List Char) :
    typeClass dimensions (List.replicate n '[' ++ cs) = typeClass (dimensions + n) cs := by
  induction n generalizing dimensions with
  | zero => rfl
  | succ n ih =>
    rw [List.replicate_succ, List.cons_append, typeClass, if_neg (by decide), if_neg (by decide),
      if_pos rfl, if_pos (by omega), ih (by omega)]
    congr 1
    omega

theorem typeClass_text (t : FieldType) (rest : List Char) :
    typeClass 0 (t.text ++ rest) = some (t.element.class?, rest) := by
  rw [FieldType.text, List.append_assoc, typeClass_replicate, typeClass_element]
  rw [Nat.zero_add]
  exact t.limited

theorem parameterClasses_of_typeClass {cs rest : List Char} {name : Option String}
    (hcs : cs.head? ≠ some ')') (h : typeClass 0 cs = some (name, rest)) :
    parameterClasses cs =
      (parameterClasses rest).map fun found => (name.toList ++ found.1, found.2) := by
  rw [parameterClasses]
  · split
    · rename_i heq
      rw [h] at heq
      cases heq
    · rename_i heq
      rw [h] at heq
      cases heq
      rfl
  · rintro rfl
    cases h
  · rintro rest' rfl
    exact hcs rfl

theorem FieldType.head?_text (t : FieldType) (rest : List Char) :
    ∃ c, (t.text ++ rest).head? = some c ∧ c ≠ ')' ∧ c ≠ '<' := by
  obtain ⟨dimensions, element, _⟩ := t
  cases dimensions with
  | zero =>
    cases element with
    | base type => cases type <;> exact ⟨_, rfl, by decide⟩
    | object name => exact ⟨_, rfl, by decide⟩
  | succ dimensions => exact ⟨_, rfl, by decide⟩

theorem parameterClasses_text (ts : List FieldType) (rest : List Char) :
    parameterClasses (ts.flatMap FieldType.text ++ ')' :: rest) =
      some (ts.flatMap FieldType.classes, rest) := by
  induction ts with
  | nil =>
    rw [List.flatMap_nil, List.nil_append, parameterClasses]
    rfl
  | cons t ts ih =>
    rw [List.flatMap_cons, List.append_assoc]
    obtain ⟨c, hc, hne, -⟩ := t.head?_text (ts.flatMap FieldType.text ++ ')' :: rest)
    rw [parameterClasses_of_typeClass (by simp [hc, hne]) (typeClass_text t _), ih]
    rfl

theorem methodClasses_text (m : MethodType) : methodClasses m.text = some m.classes := by
  have hresult : ∃ name, typeClass 0 (m.result.elim ['V'] FieldType.text) = some (name, []) ∧
      name.toList = m.result.elim [] FieldType.classes := by
    cases m.result with
    | none => exact ⟨none, rfl, rfl⟩
    | some t =>
      have hread := typeClass_text t []
      rw [List.append_nil] at hread
      exact ⟨_, hread, rfl⟩
  obtain ⟨name, hname, hclasses⟩ := hresult
  rw [MethodType.text, methodClasses, parameterClasses_text, Option.bind_eq_bind, Option.bind_some]
  dsimp only
  rw [hname, MethodType.classes, ← hclasses]
  rfl

theorem ClassName.endsName_of_mem {name : ClassName} {c : Char} (h : c ∈ name.text) :
    endsName c = false := by
  have hplain := name.plain c h
  simp only [List.mem_cons, not_or] at hplain
  simp [endsName, hplain.1, hplain.2.1, hplain.2.2.2]

theorem reference_object (name : ClassName) {n : Nat} (h : name.text.length + 2 ≤ n)
    (rest : List Char) : Signature.reference n 'L' (name.text ++ ';' :: rest) =
      some ([String.ofList name.text], rest) := by
  obtain ⟨n, rfl⟩ : ∃ k, n = k + 2 := ⟨n - 2, by omega⟩
  rw [Signature.reference_class (fun c hc => name.endsName_of_mem hc) ⟨';', rest, rfl, rfl⟩,
    Signature.classType_close n name.nonempty]

/-- An array with one dimension more than there are brackets in front of the element. -/
theorem reference_array (e : ElementType) (k : Nat) {n : Nat} (h : k + e.text.length < n)
    (rest : List Char) :
    Signature.reference n '[' (List.replicate k '[' ++ (e.text ++ rest)) =
      some (e.class?.toList, rest) := by
  obtain ⟨n, rfl⟩ : ∃ k, n = k + 1 := ⟨n - 1, by omega⟩
  induction k generalizing n with
  | zero =>
    cases e with
    | base type => exact if_pos (Signature.isPrimitive_letter type)
    | object name =>
      simp only [ElementType.text, List.length_cons, List.length_append] at h
      rw [ElementType.text, List.replicate_zero, List.nil_append, List.cons_append,
        List.append_assoc, Signature.reference_array (by decide)]
      exact reference_object name (by omega) rest
  | succ k ih =>
    obtain ⟨n, rfl⟩ : ∃ k, n = k + 1 := ⟨n - 1, by omega⟩
    rw [List.replicate_succ, List.cons_append, Signature.reference_array (by decide)]
    exact ih n (by omega)

/-- The type as a piece of a signature. -/
def FieldType.written (t : FieldType) : Written :=
  t.element.class?.elim (.plain t.text) (Written.plain t.text).closing

@[simp] theorem FieldType.text_written (t : FieldType) : t.written.text = t.text := by
  rw [written]
  cases t.element.class? <;> rfl

@[simp] theorem FieldType.names_written (t : FieldType) : t.written.names = t.classes := by
  rw [written, classes]
  cases t.element.class? <;> rfl

theorem FieldType.reads (t : FieldType) : Reads typesAt t.written := by
  obtain ⟨dimensions, element, hlimited⟩ := t
  cases dimensions with
  | zero =>
    cases element with
    | base type => exact Signature.reads_mark (by simp [Signature.isPrimitive_letter])
    | object name =>
      refine Signature.reads_reference ⟨_, _, rfl, .inl rfl⟩ fun n rest h => ?_
      have htext : (FieldType.mk 0 (.object name) hlimited).text =
          'L' :: (name.text ++ [';']) := rfl
      have hlen : name.text.length + 2 ≤ n := by
        rw [text_written, htext, List.length_cons, List.length_append, List.length_singleton] at h
        omega
      have hread := reference_object name hlen rest
      simpa [Signature.referenceAt, FieldType.text, ElementType.text, classes,
        ElementType.class?] using hread
  | succ dimensions =>
    have htext : (FieldType.mk (dimensions + 1) element hlimited).text =
        '[' :: (List.replicate dimensions '[' ++ element.text) := rfl
    refine Signature.reads_reference ⟨_, _, (text_written _).trans htext, .inr (.inr rfl)⟩
      fun n rest h => ?_
    rw [text_written, htext, List.length_cons, List.length_append, List.length_replicate] at h
    rw [text_written, names_written, htext, List.cons_append, List.append_assoc]
    exact reference_array element dimensions h rest

/-- The method as a whole signature. -/
def MethodType.written (m : MethodType) : Written :=
  .plain ['('] ++ .concat (m.parameters.map FieldType.written) ++ .plain [')'] ++
    m.result.elim (.plain ['V']) FieldType.written

theorem concat_written (ts : List FieldType) :
    (Written.concat (ts.map FieldType.written)).text = ts.flatMap FieldType.text ∧
      (Written.concat (ts.map FieldType.written)).names = ts.flatMap FieldType.classes := by
  induction ts with
  | nil => exact ⟨rfl, rfl⟩
  | cons t ts ih =>
    change (t.written ++ Written.concat (ts.map FieldType.written)).text = _ ∧
      (t.written ++ Written.concat (ts.map FieldType.written)).names = _
    rw [Written.text_append, Written.names_append, ih.1, ih.2, t.text_written, t.names_written]
    exact ⟨rfl, rfl⟩

theorem MethodType.text_written (m : MethodType) : m.written.text = m.text := by
  have hresult : (m.result.elim (.plain ['V']) FieldType.written).text =
      m.result.elim ['V'] FieldType.text := by
    cases m.result with
    | none => rfl
    | some t => exact t.text_written
  simp [written, text, concat_written, hresult]

theorem MethodType.names_written (m : MethodType) : m.written.names = m.classes := by
  have hresult : (m.result.elim (.plain ['V']) FieldType.written).names =
      m.result.elim [] FieldType.classes := by
    cases m.result with
    | none => rfl
    | some t => exact t.names_written
  simp [written, classes, concat_written, hresult]

theorem MethodType.reads (m : MethodType) : Reads typesAt m.written := by
  have hopen : Reads typesAt (.plain ['(']) := Signature.reads_mark (by simp)
  have hclose : Reads typesAt (.plain [')']) := Signature.reads_mark (by simp)
  have hresult : Reads typesAt (m.result.elim (.plain ['V']) FieldType.written) := by
    cases m.result with
    | none => exact Signature.reads_mark (by simp)
    | some t => exact t.reads
  exact ((hopen.append (.concat fun t _ => t.reads)).append hclose).append hresult

theorem referencedTypes_of_reads {w : Written} (hw : Reads typesAt w)
    (hhead : w.text.head? ≠ some '<') :
    Signature.referencedTypes (String.ofList w.text) = .ok w.names := by
  rw [Signature.referencedTypes, String.toList_ofList, Signature.classNames_of_head? hhead,
    hw.types (by omega)]

theorem elementClass?_text (t : FieldType) (h : t.dimensions ≠ 0) :
    elementClass? (String.ofList t.text) = t.element.class? := by
  obtain ⟨dimensions, element, _⟩ := t
  obtain ⟨n, rfl⟩ : ∃ n, dimensions = n + 1 := Nat.exists_eq_succ_of_ne_zero h
  cases element with
  | base type =>
    have hletter : type.letter ≠ '[' ∧ type.letter ≠ 'L' := by cases type <;> decide
    have htext : (FieldType.mk (n + 1) (.base type) ‹_›).text =
        '[' :: (List.replicate n '[' ++ [type.letter]) := rfl
    rw [elementClass?, String.toList_ofList, htext]
    simp only [dropWhile_brackets n hletter.1]
    split
    · rename_i heq
      exact absurd (List.cons.inj heq).1 hletter.2
    · rfl
  | object name =>
    refine elementClass?_of_isArrayOf ⟨n, ?_⟩
    simp [FieldType.text, ElementType.text]

/-- In every method descriptor, the reader of method descriptors and that of generic signatures find
the classes of the parameters and then of the result. In every array type, the reader of field
descriptors finds the class that a class constant of the same name stands for, or none as that
does. -/
theorem readers_agree :
    (∀ m : MethodType, methodTypeNames (String.ofList m.text) = .ok m.classes ∧
      Signature.referencedTypes (String.ofList m.text) = .ok m.classes) ∧
    ∀ t : FieldType, t.dimensions ≠ 0 →
      fieldTypeNames (String.ofList t.text) = .ok (elementClass? (String.ofList t.text)).toList ∧
      elementClass? (String.ofList t.text) = t.element.class? := by
  refine ⟨fun m => ⟨?_, ?_⟩, fun t ht => ⟨?_, elementClass?_text t ht⟩⟩
  · rw [methodTypeNames, String.toList_ofList, methodClasses_text]
  · rw [← m.text_written, ← m.names_written]
    exact referencedTypes_of_reads m.reads (by simp [m.text_written, MethodType.text])
  · obtain ⟨c, hc, -, hne⟩ := t.head?_text []
    rw [List.append_nil] at hc
    rw [elementClass?_text t ht, ← FieldType.classes, ← t.names_written, ← t.text_written]
    exact referencedTypes_of_reads t.reads (by simp [hc, hne])

/-- Two arrays, of a class and of numbers, in a method that returns the first. -/
theorem readers_agree_matrix :
    let items : FieldType :=
      ⟨2, .object ⟨"a/It:em".toList, by decide, by simp⟩, by decide⟩
    let numbers : FieldType := ⟨255, .base .int, Nat.le_refl 255⟩
    let m : MethodType := ⟨[⟨0, .base .long, by decide⟩, items, numbers], some items⟩
    methodTypeNames (String.ofList m.text) = .ok ["a/It:em", "a/It:em"] ∧
      Signature.referencedTypes (String.ofList m.text) = .ok ["a/It:em", "a/It:em"] ∧
      fieldTypeNames (String.ofList items.text) = .ok ["a/It:em"] ∧
      fieldTypeNames (String.ofList numbers.text) = .ok [] := by
  intro items numbers m
  obtain ⟨hmethod, harray⟩ := readers_agree
  refine ⟨(hmethod m).1, (hmethod m).2, ?_, ?_⟩
  · rw [(harray items (by decide)).1, (harray items (by decide)).2]
    rfl
  · rw [(harray numbers (by decide)).1, (harray numbers (by decide)).2]
    rfl

end ClassDeps.ClassFile.Descriptor
