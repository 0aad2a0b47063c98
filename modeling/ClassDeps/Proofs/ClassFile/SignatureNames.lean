import ClassDeps.Proofs.ClassFile.SignatureReading
import Mathlib.Data.List.TakeWhile

namespace ClassDeps.ClassFile.Signature

variable {n : Nat} {c : Char} {cs rest : List Char}

/-- A name that is not empty and holds no character that ends a name. -/
def IsPlain (name : String) : Prop :=
  name ≠ "" ∧ ∀ c ∈ name.toList, endsName c = false

/-- If anything is found in `cs`, the names are plain, and what follows is the end of `cs`. -/
def Leaves (cs : List Char) (found : Found) : Prop :=
  ∀ names rest, found = some (names, rest) → (∀ x ∈ names, IsPlain x) ∧ rest <:+ cs

namespace Leaves

variable {first : Found} {next : List Char → Found}

theorem none : Leaves cs none :=
  fun _ _ h => nomatch h

theorem nil (h : rest <:+ cs) : Leaves cs (some ([], rest)) := by
  intro names left heq
  cases heq
  exact ⟨fun x hx => (nomatch hx), h⟩

theorem mono (h : Leaves rest first) (hrest : rest <:+ cs) : Leaves cs first := by
  intro names left heq
  obtain ⟨hnames, hleft⟩ := h names left heq
  exact ⟨hnames, hleft.trans hrest⟩

theorem andThen (hfirst : Leaves cs first) (hnext : ∀ rest, rest <:+ cs → Leaves rest (next rest)) :
    Leaves cs (andThen first next) := by
  intro names left heq
  obtain ⟨⟨found, mid⟩, hfound, heq⟩ := Option.bind_eq_some_iff.mp heq
  obtain ⟨⟨more, last⟩, hmore, heq⟩ := Option.bind_eq_some_iff.mp heq
  cases heq
  obtain ⟨hplain, hmid⟩ := hfirst found mid hfound
  obtain ⟨hplainMore, hlast⟩ := hnext mid hmid more left hmore
  refine ⟨?_, hlast.trans hmid⟩
  intro x hx
  exact (List.mem_append.mp hx).elim (hplain x) (hplainMore x)

end Leaves

theorem endsName_of_mem_takeWhile (h : c ∈ cs.takeWhile (!endsName ·)) : endsName c = false := by
  simpa using List.mem_takeWhile_imp h

/-- The reader of a type that may be primitive. -/
def typeAt (n : Nat) : List Char → Found
  | [] => none
  | c :: cs => if isPrimitive c then some ([], cs) else reference n c cs

theorem classType_nil (n : Nat) (name : List Char) : classType n name [] = none := by
  cases n <;> rfl

theorem reference_bracket (n : Nat) (cs : List Char) :
    reference (n + 1) '[' cs = typeAt n cs := by
  cases cs <;> rfl

theorem reference_variable_nil (h : cs.dropWhile (· ≠ ';') = []) :
    reference (n + 1) 'T' cs = none := by
  rw [reference.eq_def]
  dsimp only
  rw [if_neg (by decide), if_pos rfl, h]

theorem reference_variable_cons (h : cs.dropWhile (· ≠ ';') = c :: rest) :
    reference (n + 1) 'T' cs = some ([], rest) := by
  rw [reference.eq_def]
  dsimp only
  rw [if_neg (by decide), if_pos rfl, h]

theorem reference_other (hc : ¬opensReference c) : reference n c cs = none := by
  obtain ⟨hclass, hvariable, harray⟩ : c ≠ 'L' ∧ c ≠ 'T' ∧ c ≠ '[' := by
    simpa [opensReference, not_or] using hc
  cases n with
  | zero => rfl
  | succ n =>
    rw [reference.eq_def]
    dsimp only
    rw [if_neg hclass, if_neg hvariable, if_neg harray]

theorem leaves_typeAt (h : ∀ c cs, Leaves cs (reference n c cs)) (c : Char) (cs : List Char) :
    Leaves cs (typeAt n (c :: cs)) := by
  rw [typeAt]
  split
  · exact .nil (List.suffix_refl cs)
  · exact h c cs

/-- What the three readers that call one another leave. The name of a class type that has been read
so far is plain. -/
structure ReadersLeave (n : Nat) : Prop where
  reference : ∀ c cs, Leaves cs (reference n c cs)
  classType : ∀ {name} cs, (∀ c ∈ name, endsName c = false) → Leaves cs (classType n name cs)
  arguments : ∀ cs, Leaves cs (arguments n cs)

theorem leaves_reference (ih : ReadersLeave n) (c : Char) (cs : List Char) :
    Leaves cs (reference (n + 1) c cs) := by
  by_cases hc : opensReference c
  · rcases hc with rfl | rfl | rfl
    · have hname : ∀ d ∈ cs.takeWhile (!endsName ·), endsName d = false :=
        fun d => endsName_of_mem_takeWhile
      exact (ih.classType _ hname).mono (List.dropWhile_suffix _)
    · cases hback : cs.dropWhile (· ≠ ';') with
      | nil =>
        rw [reference_variable_nil hback]
        exact .none
      | cons d rest =>
        rw [reference_variable_cons hback]
        exact .nil ((List.suffix_cons d rest).trans (hback ▸ List.dropWhile_suffix _))
    · rw [reference_bracket]
      cases cs with
      | nil => exact .none
      | cons d cs => exact (leaves_typeAt ih.reference d cs).mono (List.suffix_cons d cs)
  · rw [reference_other hc]
    exact .none

theorem leaves_classType (ih : ReadersLeave n) {name : List Char} (cs : List Char)
    (hname : ∀ c ∈ name, endsName c = false) : Leaves cs (classType (n + 1) name cs) := by
  cases cs with
  | nil => exact .none
  | cons c cs =>
    have hcs := List.suffix_cons c cs
    rw [classType]
    split
    · exact (Leaves.andThen (ih.arguments cs) fun rest _ => ih.classType rest hname).mono hcs
    split
    · refine ((ih.classType _ ?_).mono (List.dropWhile_suffix _)).mono hcs
      intro d hd
      rcases List.mem_append.mp hd with hd | hd
      · exact hname d hd
      rcases List.mem_cons.mp hd with rfl | hd
      · rfl
      · exact endsName_of_mem_takeWhile hd
    split
    · split
      · exact .none
      · rename_i hne
        intro names rest heq
        cases heq
        refine ⟨?_, hcs⟩
        intro x hx
        obtain rfl := List.mem_singleton.mp hx
        refine ⟨?_, by rwa [String.toList_ofList]⟩
        simpa [List.isEmpty_iff] using hne
    · exact .none

theorem leaves_arguments (ih : ReadersLeave n) (cs : List Char) :
    Leaves cs (arguments (n + 1) cs) := by
  have hargument : ∀ d rest, Leaves rest (andThen (reference n d rest) (arguments n)) :=
    fun d rest => (ih.reference d rest).andThen fun left _ => ih.arguments left
  cases cs with
  | nil => exact .none
  | cons c cs =>
    have hcs := List.suffix_cons c cs
    rw [arguments.eq_def]
    dsimp only
    split
    · exact .nil hcs
    split
    · exact (ih.arguments cs).mono hcs
    split
    · split
      · exact .none
      · rename_i d rest
        exact (hargument d rest).mono ((List.suffix_cons d rest).trans hcs)
    · exact (hargument c cs).mono hcs

theorem readersLeave (n : Nat) : ReadersLeave n := by
  induction n with
  | zero => exact ⟨fun _ _ => .none, fun _ _ => .none, fun _ => .none⟩
  | succ n ih => exact ⟨leaves_reference ih, leaves_classType ih, leaves_arguments ih⟩

theorem parameters_nil (n : Nat) : parameters n [] = none := by
  cases n <;> rfl

theorem parameters_colon (n : Nat) (c : Char) (cs : List Char) :
    parameters (n + 1) (':' :: c :: cs) =
      if opensReference c then andThen (reference n c cs) (parameters n)
      else parameters n (c :: cs) := by
  split
  · exact parameters_bound ‹_› n cs
  · rename_i hc
    change (if (c = 'L' || c = 'T' || c = '[') = true then _ else parameters n (c :: cs)) = _
    rw [if_neg]
    simpa [opensReference, and_assoc] using hc

theorem parameters_skip (hclose : c ≠ '>') (hcolon : c ≠ ':') (n : Nat) :
    parameters (n + 1) (c :: cs) = parameters n (cs.dropWhile (· ≠ ':')) := by
  rw [parameters.eq_def]
  dsimp only
  rw [if_neg hclose, if_neg hcolon]
  split
  · rename_i hback
    rw [hback, parameters_nil]
  · rfl

theorem leaves_parameters (n : Nat) (cs : List Char) : Leaves cs (parameters n cs) := by
  induction n generalizing cs with
  | zero => exact .none
  | succ n ih =>
    cases cs with
    | nil => exact .none
    | cons c cs =>
      have hcs := List.suffix_cons c cs
      by_cases hclose : c = '>'
      · subst hclose
        exact .nil hcs
      by_cases hcolon : c = ':'
      · subst hcolon
        cases cs with
        | nil => exact .none
        | cons d cs =>
          rw [parameters_colon]
          split
          · have hrest := (List.suffix_cons d cs).trans hcs
            exact (((readersLeave n).reference d cs).andThen fun rest _ => ih rest).mono hrest
          · exact (ih (d :: cs)).mono hcs
      · rw [parameters_skip hclose hcolon]
        exact ((ih _).mono (List.dropWhile_suffix _)).mono hcs

/-- A mark between types names no class, and neither does a primitive type. -/
theorem typesAt_cons (n : Nat) (c : Char) (cs : List Char) :
    typesAt (n + 1) (c :: cs) =
      if ['(', ')', '^', 'V'].contains c then typesAt n cs
      else andThen (typeAt n (c :: cs)) (typesAt n) := by
  have hmark : ['(', ')', '^', 'V'].contains c ↔ c = '(' ∨ c = ')' ∨ c = '^' ∨ c = 'V' := by
    simp
  split
  · rename_i hc
    exact typesAt_mark (by tauto) n cs
  rw [typeAt]
  split
  · rename_i hprimitive
    rw [typesAt_mark (by simp [hprimitive]), andThen_some]
    simp
  · exact typesAt_other (by tauto) n cs

theorem leaves_typesAt (n : Nat) (cs : List Char) : Leaves cs (typesAt n cs) := by
  induction n generalizing cs with
  | zero =>
    cases cs with
    | nil => exact .nil (List.suffix_refl [])
    | cons c cs => exact .none
  | succ n ih =>
    cases cs with
    | nil => exact .nil (List.suffix_refl [])
    | cons c cs =>
      have hcs := List.suffix_cons c cs
      rw [typesAt_cons]
      split
      · exact (ih cs).mono hcs
      · have htype := leaves_typeAt (readersLeave n).reference c cs
        exact (htype.andThen fun rest _ => ih rest).mono hcs

/-- The reader of a whole signature. -/
def signatureAt (n : Nat) : List Char → Found
  | '<' :: cs => andThen (parameters n cs) (typesAt n)
  | cs => typesAt n cs

theorem signatureAt_of_head? (h : cs.head? ≠ some '<') :
    signatureAt n cs = typesAt n cs := by
  rw [signatureAt]
  rintro rest rfl
  exact h rfl

theorem classNames_eq (cs : List Char) :
    classNames cs = (signatureAt (2 * cs.length + 2) cs).map (·.1) := by
  by_cases h : cs.head? = some '<'
  · obtain ⟨cs, rfl⟩ := List.head?_eq_some_iff.mp h
    simp only [classNames, signatureAt]
    generalize 2 * ('<' :: cs).length + 2 = n
    cases parameters n cs with
    | none => rfl
    | some found =>
      rw [andThen_some, typesAt]
      cases htypes : types n found.2 <;> simp [htypes]
  · rw [classNames_of_head? h, signatureAt_of_head? h, typesAt, Option.map_map]
    simp [Function.comp_def]

theorem leaves_signatureAt (n : Nat) (cs : List Char) : Leaves cs (signatureAt n cs) := by
  by_cases h : cs.head? = some '<'
  · obtain ⟨cs, rfl⟩ := List.head?_eq_some_iff.mp h
    have hcs := List.suffix_cons '<' cs
    exact ((leaves_parameters n cs).andThen fun rest _ => leaves_typesAt n rest).mono hcs
  · rw [signatureAt_of_head? h]
    exact leaves_typesAt n cs

theorem isPlain_of_referencedTypes {text name : String} {names : List String}
    (h : referencedTypes text = .ok names) (hname : name ∈ names) : IsPlain name := by
  rw [referencedTypes, classNames_eq] at h
  cases hfound : signatureAt (2 * text.toList.length + 2) text.toList with
  | none =>
    rw [hfound] at h
    cases h
  | some found =>
    rw [hfound] at h
    cases h
    exact (leaves_signatureAt _ _ _ _ hfound).1 name hname

end ClassDeps.ClassFile.Signature
