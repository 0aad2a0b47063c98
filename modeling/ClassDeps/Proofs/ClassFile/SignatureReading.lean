import ClassDeps.Proofs.ClassFile.GenericSignature

namespace ClassDeps.ClassFile.Signature

theorem Identifier.ne_of_mem {name : Identifier} {c d : Char} (hc : c ∈ name.text)
    (hd : d ∈ reserved) : c ≠ d := by
  rintro rfl
  exact name.plain c hc hd

theorem Identifier.dropWhile_ne (name : Identifier) {c : Char} (hc : c ∈ reserved)
    (rest : List Char) : (name.text ++ c :: rest).dropWhile (· ≠ c) = c :: rest := by
  rw [List.dropWhile_append_of_pos, List.dropWhile_cons_of_neg (by simp)]
  intro d hd
  exact decide_eq_true (name.ne_of_mem hd hc)

/-- A text that starts with a character after which a class name has ended. -/
def Stopped (cs : List Char) : Prop :=
  ∃ c rest, cs = c :: rest ∧ endsName c

theorem takeWhile_name {name cs : List Char} (h : ∀ c ∈ name, endsName c = false)
    (hcs : Stopped cs) :
    (name ++ cs).takeWhile (!endsName ·) = name ∧ (name ++ cs).dropWhile (!endsName ·) = cs := by
  obtain ⟨c, rest, rfl, hc⟩ := hcs
  have hname : ∀ d ∈ name, (!endsName d) = true := by
    intro d hd
    rw [h d hd]
    rfl
  rw [List.takeWhile_append_of_pos hname, List.dropWhile_append_of_pos hname,
    List.takeWhile_cons_of_neg (by simp [hc]), List.dropWhile_cons_of_neg (by simp [hc]),
    List.append_nil]
  exact ⟨rfl, rfl⟩

theorem endsName_of_mem {name : Identifier} {c : Char} (h : c ∈ name.text) :
    endsName c = false := by
  have hlt := name.ne_of_mem h (d := '<') (by decide)
  have hdot := name.ne_of_mem h (d := '.') (by decide)
  have hsemi := name.ne_of_mem h (d := ';') (by decide)
  simp [endsName, hlt, hdot, hsemi]

theorem endsName_of_mem_package {package : List Identifier} {c : Char}
    (h : c ∈ packageText package) : endsName c = false := by
  obtain ⟨part, -, hc⟩ := List.mem_flatMap.mp h
  rcases List.mem_append.mp hc with hc | hc
  · exact endsName_of_mem hc
  · obtain rfl := List.mem_singleton.mp hc
    rfl

theorem stopped_inner (inner : List SimpleType) (rest : List Char) :
    Stopped ((writtenInner inner).text ++ ';' :: rest) := by
  cases inner with
  | nil => exact ⟨_, _, rfl, rfl⟩
  | cons type inner => exact ⟨_, _, rfl, rfl⟩

theorem Stopped.bracket (arguments : List Argument) {rest : List Char} (h : Stopped rest) :
    Stopped ((writtenBracket arguments).text ++ rest) := by
  cases arguments with
  | nil => exact h
  | cons argument arguments => exact ⟨_, _, rfl, rfl⟩

/-- The characters that a type other than a primitive one can start with. -/
def opensReference (c : Char) : Prop :=
  c = 'L' ∨ c = 'T' ∨ c = '['

instance : DecidablePred opensReference :=
  fun _ => inferInstanceAs (Decidable (_ ∨ _ ∨ _))

theorem ReferenceType.exists_cons (t : ReferenceType) :
    ∃ c cs, t.written.text = c :: cs ∧ opensReference c := by
  match t with
  | .typeVariable _ => exact ⟨_, _, rfl, .inr (.inl rfl)⟩
  | .primitiveArray _ => exact ⟨_, _, rfl, .inr (.inr rfl)⟩
  | .array _ => exact ⟨_, _, rfl, .inr (.inr rfl)⟩
  | .object ⟨_, _, _⟩ => exact ⟨_, _, rfl, .inl rfl⟩

theorem isPrimitive_letter (b : BaseType) : isPrimitive b.letter = true := by
  cases b <;> rfl

theorem isPrimitive_of_opensReference {c : Char} (h : opensReference c) :
    isPrimitive c = false := by
  rcases h with rfl | rfl | rfl <;> rfl

/-- One reading after another: the names of both, and the text that the second leaves. -/
def andThen (first : Found) (next : List Char → Found) : Found := do
  let (names, cs) ← first
  let (more, cs) ← next cs
  some (names ++ more, cs)

theorem andThen_some (names : List String) (cs : List Char) (next : List Char → Found) :
    andThen (some (names, cs)) next =
      (next cs).map fun found => (names ++ found.1, found.2) := by
  cases h : next cs with
  | none => simp [andThen, h]
  | some found => simp [andThen, h]

/-- The reader of a type at a text that is not empty. -/
def referenceAt (n : Nat) : List Char → Found
  | [] => none
  | c :: cs => reference n c cs

theorem reference_array {c : Char} (hc : isPrimitive c = false) (n : Nat) (cs : List Char) :
    reference (n + 1) '[' (c :: cs) = reference n c cs := by
  change (if isPrimitive c then _ else reference n c cs) = _
  rw [hc]
  rfl

theorem reference_class {name cs : List Char} (h : ∀ c ∈ name, endsName c = false)
    (hcs : Stopped cs) (n : Nat) : reference (n + 1) 'L' (name ++ cs) = classType n name cs := by
  obtain ⟨htake, hdrop⟩ := takeWhile_name h hcs
  change classType n ((name ++ cs).takeWhile _) ((name ++ cs).dropWhile _) = _
  rw [htake, hdrop]

theorem classType_arguments (n : Nat) (name cs : List Char) :
    classType (n + 1) name ('<' :: cs) = andThen (arguments n cs) (classType n name) := rfl

theorem classType_nested {own cs : List Char} (h : ∀ c ∈ own, endsName c = false)
    (hcs : Stopped cs) (n : Nat) (name : List Char) :
    classType (n + 1) name ('.' :: (own ++ cs)) = classType n (name ++ '$' :: own) cs := by
  obtain ⟨htake, hdrop⟩ := takeWhile_name h hcs
  change classType n (name ++ '$' :: (own ++ cs).takeWhile _) ((own ++ cs).dropWhile _) = _
  rw [htake, hdrop]

theorem classType_close (n : Nat) {name : List Char} (hname : name ≠ []) (rest : List Char) :
    classType (n + 1) name (';' :: rest) = some ([String.ofList name], rest) := by
  rw [classType, if_neg (by decide), if_neg (by decide), if_pos rfl, if_neg]
  rwa [List.isEmpty_iff]

theorem arguments_sign (w : Wildcard) (n : Nat) (c : Char) (cs : List Char) :
    arguments (n + 1) (w.sign :: c :: cs) = andThen (reference n c cs) (arguments n) := by
  cases w with
  | upper => rfl
  | lower => rfl

theorem arguments_type {c : Char} (hc : opensReference c) (n : Nat) (cs : List Char) :
    arguments (n + 1) (c :: cs) = andThen (reference n c cs) (arguments n) := by
  rcases hc with rfl | rfl | rfl
  · rfl
  · rfl
  · rfl

theorem parameters_bound {c : Char} (hc : opensReference c) (n : Nat) (cs : List Char) :
    parameters (n + 1) (':' :: c :: cs) = andThen (reference n c cs) (parameters n) := by
  rcases hc with rfl | rfl | rfl
  · rfl
  · rfl
  · rfl

theorem parameters_name (name : Identifier) (n : Nat) (rest : List Char) :
    parameters (n + 1) (name.text ++ ':' :: rest) = parameters n (':' :: rest) := by
  have hdrop := name.dropWhile_ne (c := ':') (by decide) rest
  obtain ⟨c, cs, htext⟩ := List.exists_cons_of_ne_nil name.nonempty
  have hc : c ∈ name.text := by simp [htext]
  have hcolon : c ≠ ':' := name.ne_of_mem hc (by decide)
  rw [htext, List.cons_append] at hdrop ⊢
  rw [List.dropWhile_cons_of_pos (by simp [hcolon])] at hdrop
  rw [parameters.eq_def]
  simp only [if_neg (name.ne_of_mem hc (by decide) : c ≠ '>'), if_neg hcolon, hdrop]

/-- The reader of types up to the end of the text, so that nothing is left. -/
def typesAt (n : Nat) (cs : List Char) : Found :=
  (types n cs).map fun names => (names, [])

theorem typesAt_mark {c : Char} (hc : c = '(' ∨ c = ')' ∨ c = '^' ∨ c = 'V' ∨ isPrimitive c)
    (n : Nat) (cs : List Char) : typesAt (n + 1) (c :: cs) = typesAt n cs := by
  rw [typesAt, types, if_pos (by simpa [or_assoc] using hc)]
  rfl

theorem typesAt_other {c : Char}
    (hc : ¬(c = '(' ∨ c = ')' ∨ c = '^' ∨ c = 'V' ∨ isPrimitive c)) (n : Nat) (cs : List Char) :
    typesAt (n + 1) (c :: cs) = andThen (reference n c cs) (typesAt n) := by
  rw [typesAt, types, if_neg (by simpa [or_assoc] using hc)]
  cases reference n c cs with
  | none => rfl
  | some found =>
    cases h : types n found.2 with
    | none => simp [andThen, typesAt, h]
    | some names => simp [andThen, typesAt, h]

theorem typesAt_type {c : Char} (hc : opensReference c) (n : Nat) (cs : List Char) :
    typesAt (n + 1) (c :: cs) = andThen (reference n c cs) (typesAt n) := by
  refine typesAt_other ?_ n cs
  rcases hc with rfl | rfl | rfl <;> decide

/-- The reader takes the piece in front of every text, and reads on after it within a bound that is
lower by the length of the piece at most. -/
def Reads (read : Nat → List Char → Found) (w : Written) : Prop :=
  ∀ (n : Nat) (rest : List Char), w.text.length < n → ∃ k, n ≤ k + w.text.length ∧
    read n (w.text ++ rest) = (read k rest).map fun found => (w.names ++ found.1, found.2)

section

variable {read : Nat → List Char → Found}

theorem Reads.nil : Reads read (.plain []) :=
  fun n rest _ => ⟨n, Nat.le_refl n, by simp⟩

theorem Reads.append {a b : Written} (ha : Reads read a) (hb : Reads read b) :
    Reads read (a ++ b) := by
  intro n rest h
  rw [Written.text_append, List.length_append] at h ⊢
  obtain ⟨k, hk, hfirst⟩ := ha n (b.text ++ rest) (by omega)
  obtain ⟨m, hm, hsecond⟩ := hb k rest (by omega)
  refine ⟨m, by omega, ?_⟩
  rw [List.append_assoc, hfirst, hsecond, Option.map_map, Written.names_append]
  congr 1
  funext found
  simp

theorem Reads.concat {α : Type} {write : α → Written} {items : List α}
    (h : ∀ a ∈ items, Reads read (write a)) : Reads read (.concat (items.map write)) := by
  induction items with
  | nil => exact Reads.nil
  | cons a items ih =>
    obtain ⟨ha, hitems⟩ := List.forall_mem_cons.mp h
    exact ha.append (ih hitems)

end

mutual

theorem referenceAt_written : (t : ReferenceType) → (n : Nat) → (rest : List Char) →
    t.written.text.length ≤ n →
    referenceAt n (t.written.text ++ rest) = some (t.written.names, rest)
  | .typeVariable name, n + 1, rest, _ => by
    change (match (name.text ++ [';'] ++ rest).dropWhile (· ≠ ';') with
      | _ :: rest => some ([], rest)
      | [] => none) = some ([], rest)
    rw [List.append_assoc, List.singleton_append, name.dropWhile_ne (by decide)]
  | .primitiveArray element, n + 1, rest, _ => if_pos (isPrimitive_letter element)
  | .array element, n + 1, rest, h => by
    have hread := referenceAt_written element n rest (Nat.le_of_succ_le_succ h)
    obtain ⟨c, cs, htext, hc⟩ := element.exists_cons
    rw [ReferenceType.written, Written.names_append, Written.names_plain, List.nil_append,
      Written.text_append, Written.text_plain]
    rw [htext] at hread ⊢
    exact (reference_array (isPrimitive_of_opensReference hc) n _).trans hread
  | .object type, n, rest, h => referenceAt_classType type n rest h
  | .typeVariable _, 0, _, h | .primitiveArray _, 0, _, h | .array _, 0, _, h => nomatch h

theorem referenceAt_classType : (t : ClassType) → (n : Nat) → (rest : List Char) →
    t.written.text.length ≤ n →
    referenceAt n (t.written.text ++ rest) = some (t.written.names, rest)
  | ⟨package, ⟨name, as⟩, inner⟩, n + 1, rest, h => by
    have htext : (ClassType.mk package ⟨name, as⟩ inner).written.text ++ rest =
        'L' :: (packageText package ++ name.text ++ ((writtenBracket as).text ++
          ((writtenInner inner).text ++ ';' :: rest))) := by
      simp [ClassType.written, SimpleType.written]
    have hnames : (ClassType.mk package ⟨name, as⟩ inner).written.names =
        (writtenBracket as).names ++ ((writtenInner inner).names ++
          [ClassType.name ⟨package, ⟨name, as⟩, inner⟩]) := by
      simp [ClassType.written, SimpleType.written]
    have hlen : (writtenBracket as).text.length + ((writtenInner inner).text.length + 1) ≤ n := by
      simp [ClassType.written, SimpleType.written] at h
      omega
    have hne : packageText package ++ name.text ≠ [] := by simp [name.nonempty]
    have hplain : ∀ c ∈ packageText package ++ name.text, endsName c = false := by
      intro c hc
      rcases List.mem_append.mp hc with hc | hc
      · exact endsName_of_mem_package hc
      · exact endsName_of_mem hc
    rw [htext, hnames, referenceAt,
      reference_class hplain ((stopped_inner inner rest).bracket as) n]
    obtain ⟨k, hk, hread⟩ := reads_bracket (packageText package ++ name.text) as n
      ((writtenInner inner).text ++ ';' :: rest) (by omega)
    refine hread.trans ?_
    dsimp only
    rw [classType_inner inner k _ hne rest (by omega)]
    rfl
  | ⟨_, _, _⟩, 0, _, h => nomatch h

/-- The arguments of a class whose name has been read. -/
theorem reads_bracket (name : List Char) : (as : List Argument) →
    Reads (classType · name) (writtenBracket as)
  | [] => Reads.nil
  | a :: as => by
    intro n rest h
    have htext : (writtenBracket (a :: as)).text ++ rest =
        '<' :: ((a.written ++ writtenArguments as).text ++ '>' :: rest) := by
      simp [writtenBracket]
    have hnames : (writtenBracket (a :: as)).names = (a.written ++ writtenArguments as).names := by
      simp [writtenBracket]
    have hlen : (writtenBracket (a :: as)).text.length =
        (a.written ++ writtenArguments as).text.length + 2 := by
      simp [writtenBracket]
      omega
    obtain ⟨n, rfl⟩ : ∃ k, n = k + 1 := ⟨n - 1, by omega⟩
    obtain ⟨k, hk, hinside⟩ := (a.reads.append (reads_arguments as)) n ('>' :: rest) (by omega)
    obtain ⟨k, rfl⟩ : ∃ j, k = j + 1 := ⟨k - 1, by omega⟩
    have hclose : arguments (k + 1) ('>' :: rest) = some ([], rest) := rfl
    refine ⟨n, by omega, ?_⟩
    dsimp only
    rw [htext, hnames, classType_arguments, hinside, hclose, Option.map_some, List.append_nil,
      andThen_some]

theorem classType_inner : (inner : List SimpleType) → (n : Nat) → (name : List Char) →
    name ≠ [] → (rest : List Char) → (writtenInner inner).text.length + 1 ≤ n →
    classType n name ((writtenInner inner).text ++ ';' :: rest) =
      some ((writtenInner inner).names ++ [String.ofList (name ++ nestedText inner)], rest)
  | [], n + 1, name, hname, rest, _ => by
    change classType (n + 1) name (';' :: rest) = some ([String.ofList (name ++ [])], rest)
    rw [classType_close n hname, List.append_nil]
  | ⟨own, as⟩ :: inner, n + 1, name, hname, rest, h => by
    have htext : (writtenInner (⟨own, as⟩ :: inner)).text ++ ';' :: rest =
        '.' :: (own.text ++ ((writtenBracket as).text ++
          ((writtenInner inner).text ++ ';' :: rest))) := by
      simp [writtenInner, SimpleType.written]
    have hnames : (writtenInner (⟨own, as⟩ :: inner)).names =
        (writtenBracket as).names ++ (writtenInner inner).names := by
      simp [writtenInner, SimpleType.written]
    have hnested : name ++ nestedText (⟨own, as⟩ :: inner) =
        name ++ '$' :: own.text ++ nestedText inner := by
      simp [nestedText, SimpleType.name]
    have hlen : (writtenBracket as).text.length + ((writtenInner inner).text.length + 1) ≤ n := by
      simp [writtenInner, SimpleType.written] at h
      omega
    rw [htext, hnames, hnested, List.append_assoc,
      classType_nested (fun c hc => endsName_of_mem hc) ((stopped_inner inner rest).bracket as)]
    obtain ⟨k, hk, hread⟩ := reads_bracket (name ++ '$' :: own.text) as n
      ((writtenInner inner).text ++ ';' :: rest) (by omega)
    refine hread.trans ?_
    dsimp only
    rw [classType_inner inner k _ (by simp) rest (by omega)]
    rfl
  | _, 0, _, _, _, h => nomatch h

theorem Argument.reads : (a : Argument) → Reads arguments a.written
  | .any => by
    intro n rest h
    obtain ⟨n, rfl⟩ : ∃ k, n = k + 1 := ⟨n - 1, by omega⟩
    exact ⟨n, Nat.le_refl _, by simp [Argument.written, arguments]⟩
  | .exact t => by
    intro n rest h
    obtain ⟨n, rfl⟩ : ∃ k, n = k + 1 := ⟨n - 1, by omega⟩
    have hread := referenceAt_written t n rest (Nat.le_of_lt_succ h)
    obtain ⟨c, cs, htext, hc⟩ := t.exists_cons
    refine ⟨n, ?_, ?_⟩
    · rw [Argument.written, htext, List.length_cons]
      omega
    · rw [Argument.written, ← andThen_some, ← hread, htext]
      exact arguments_type hc n _
  | .bounded w t => by
    intro n rest h
    have hlen : t.written.text.length + 1 < n := h
    obtain ⟨n, rfl⟩ : ∃ k, n = k + 1 := ⟨n - 1, by omega⟩
    have hread := referenceAt_written t n rest (by omega)
    obtain ⟨c, cs, htext, -⟩ := t.exists_cons
    refine ⟨n, ?_, ?_⟩
    · rw [Argument.written, Written.text_append, Written.text_plain, List.length_append,
        List.length_singleton]
      omega
    · rw [Argument.written, Written.names_append, Written.names_plain, List.nil_append,
        Written.text_append, Written.text_plain, ← andThen_some, ← hread, htext]
      exact arguments_sign w n _ _

theorem reads_arguments : (as : List Argument) → Reads arguments (writtenArguments as)
  | [] => Reads.nil
  | a :: as => a.reads.append (reads_arguments as)

end

theorem reads_bound (t : ReferenceType) : Reads parameters (TypeParameter.writtenBound t) := by
  intro n rest h
  have hlen : t.written.text.length + 1 < n := h
  obtain ⟨n, rfl⟩ : ∃ k, n = k + 1 := ⟨n - 1, by omega⟩
  have hread := referenceAt_written t n rest (by omega)
  obtain ⟨c, cs, htext, hc⟩ := t.exists_cons
  refine ⟨n, ?_, ?_⟩
  · rw [TypeParameter.writtenBound, Written.text_append, List.length_append, Written.text_plain,
      List.length_singleton]
    omega
  · rw [TypeParameter.writtenBound, Written.names_append, Written.names_plain, List.nil_append,
      Written.text_append, Written.text_plain, ← andThen_some, ← hread, htext]
    exact parameters_bound hc n _

/-- The name of a parameter is skipped up to the colon of its first bound. -/
theorem reads_name (name : Identifier) {w : Written} (hw : w.text.head? = some ':')
    (h : Reads parameters w) : Reads parameters (.plain name.text ++ w) := by
  obtain ⟨cs, hcs⟩ := List.head?_eq_some_iff.mp hw
  have hpos := List.length_pos_of_ne_nil name.nonempty
  intro n rest hlen
  rw [Written.text_append, Written.text_plain, List.length_append] at hlen ⊢
  obtain ⟨n, rfl⟩ : ∃ k, n = k + 1 := ⟨n - 1, by omega⟩
  obtain ⟨k, hk, hread⟩ := h n rest (by omega)
  refine ⟨k, by omega, ?_⟩
  rw [Written.names_append, Written.names_plain, List.nil_append, List.append_assoc, ← hread, hcs,
    List.cons_append, parameters_name]

/-- An empty class bound is skipped in front of an interface bound. -/
theorem reads_emptyBound {w : Written} (hw : w.text.head? = some ':')
    (h : Reads parameters w) : Reads parameters (.plain [':'] ++ w) := by
  obtain ⟨cs, hcs⟩ := List.head?_eq_some_iff.mp hw
  intro n rest hlen
  rw [Written.text_append, Written.text_plain, List.length_append, List.length_singleton] at hlen ⊢
  obtain ⟨n, rfl⟩ : ∃ k, n = k + 1 := ⟨n - 1, by omega⟩
  obtain ⟨k, hk, hread⟩ := h n rest (by omega)
  refine ⟨k, by omega, ?_⟩
  rw [Written.names_append, Written.names_plain, List.nil_append, ← hread, hcs]
  rfl

theorem TypeParameter.reads (p : TypeParameter) (hp : p.Bounded) :
    Reads parameters p.written := by
  have hbounds : Reads parameters (.concat (p.interfaceBounds.map writtenBound)) :=
    .concat fun t _ => reads_bound t
  rw [TypeParameter.written]
  cases hclass : p.classBound with
  | some t => exact reads_name p.name rfl ((reads_bound t).append hbounds)
  | none =>
    have hne : p.interfaceBounds ≠ [] := by
      rcases hp with hp | hp
      · rw [hclass] at hp
        cases hp
      · exact hp
    obtain ⟨t, ts, hts⟩ := List.exists_cons_of_ne_nil hne
    rw [hts] at hbounds ⊢
    exact reads_name p.name rfl (reads_emptyBound rfl hbounds)

theorem TypeParameter.written_of_not_bounded {p : TypeParameter} (hp : ¬p.Bounded) :
    p.written.text = p.name.text ++ [':'] ∧ p.written.names = [] := by
  obtain ⟨hclass, hinterfaces⟩ := not_or.mp hp
  rw [Option.not_isSome_iff_eq_none] at hclass
  rw [ne_eq, not_not] at hinterfaces
  rw [TypeParameter.written, hclass, hinterfaces]
  exact ⟨rfl, rfl⟩

/-- After a parameter without bounds, the reader looks for a type. -/
theorem parameters_unbounded (name : Identifier) {c : Char} (hc : ¬opensReference c) (n : Nat)
    (cs : List Char) :
    parameters (n + 2) (name.text ++ ':' :: c :: cs) = parameters n (c :: cs) := by
  obtain ⟨hclass, hvariable, harray⟩ : c ≠ 'L' ∧ c ≠ 'T' ∧ c ≠ '[' := by
    simpa [opensReference, not_or] using hc
  rw [parameters_name, parameters, if_neg (by decide), if_pos rfl]
  simp [hclass, hvariable, harray]

instance : DecidablePred TypeParameter.Bounded := fun p =>
  decidable_of_iff (p.classBound.isSome ∨ ¬p.interfaceBounds.isEmpty) (by
    rw [List.isEmpty_iff, TypeParameter.Bounded])

/-- No parameter without bounds stands right before a name that starts as a type does. -/
def Apart (ps : List TypeParameter) : Prop :=
  ps.IsChain fun p q => p.Bounded ∨ ¬opensReference (q.name.text.head q.name.nonempty)

instance : DecidablePred Apart :=
  fun ps => inferInstanceAs (Decidable (ps.IsChain _))

theorem apart_of_bounded {ps : List TypeParameter} (h : ∀ p ∈ ps.dropLast, p.Bounded) :
    Apart ps := by
  induction ps with
  | nil => exact .nil
  | cons p ps ih =>
    cases ps with
    | nil => exact .singleton p
    | cons q ps =>
      rw [List.dropLast_cons_of_ne_nil (List.cons_ne_nil q ps)] at h
      obtain ⟨hp, hps⟩ := List.forall_mem_cons.mp h
      exact .cons_cons (.inl hp) (ih hps)

/-- What follows a parameter without bounds does not start as a type does. -/
theorem Apart.exists_cons {p : TypeParameter} {ps : List TypeParameter} (h : Apart (p :: ps))
    (hp : ¬p.Bounded) (rest : List Char) :
    ∃ c cs, (Written.concat (ps.map TypeParameter.written)).text ++ '>' :: rest = c :: cs ∧
      ¬opensReference c := by
  cases ps with
  | nil => exact ⟨'>', rest, rfl, by simp [opensReference]⟩
  | cons q ps =>
    have hq := (List.isChain_cons_cons.mp h).1.resolve_left hp
    have htext : (Written.concat ((q :: ps).map TypeParameter.written)).text ++ '>' :: rest =
        q.name.text ++ ((q.classBound.elim (.plain [':']) TypeParameter.writtenBound ++
          .concat (q.interfaceBounds.map TypeParameter.writtenBound)).text ++
          ((Written.concat (ps.map TypeParameter.written)).text ++ '>' :: rest)) := by
      simp [Written.concat, TypeParameter.written]
    rw [htext, ← List.cons_head_tail q.name.nonempty, List.cons_append]
    exact ⟨_, _, rfl, hq⟩

theorem reads_mark {c : Char} (hc : c = '(' ∨ c = ')' ∨ c = '^' ∨ c = 'V' ∨ isPrimitive c) :
    Reads typesAt (.plain [c]) := by
  intro n rest h
  obtain ⟨n, rfl⟩ : ∃ k, n = k + 1 := ⟨n - 1, by omega⟩
  refine ⟨n, Nat.le_refl _, (typesAt_mark hc n rest).trans ?_⟩
  simp

/-- A piece that is read as one type. -/
theorem reads_reference {w : Written} (hopens : ∃ c cs, w.text = c :: cs ∧ opensReference c)
    (hread : ∀ n rest, w.text.length ≤ n →
      referenceAt n (w.text ++ rest) = some (w.names, rest)) : Reads typesAt w := by
  intro n rest h
  obtain ⟨n, rfl⟩ : ∃ k, n = k + 1 := ⟨n - 1, by omega⟩
  have hread := hread n rest (by omega)
  obtain ⟨c, cs, htext, hc⟩ := hopens
  refine ⟨n, ?_, ?_⟩
  · rw [htext, List.length_cons]
    omega
  · rw [← andThen_some, ← hread, htext]
    exact typesAt_type hc n _

theorem ReferenceType.reads (t : ReferenceType) : Reads typesAt t.written :=
  reads_reference t.exists_cons (referenceAt_written t)

theorem ClassType.reads (t : ClassType) : Reads typesAt t.written :=
  (ReferenceType.object t).reads

theorem JavaType.reads (t : JavaType) : Reads typesAt t.written := by
  cases t with
  | base b => exact reads_mark (by simp [isPrimitive_letter])
  | reference t => exact t.reads

theorem Thrown.reads (t : Thrown) : Reads typesAt t.written := by
  cases t with
  | classType t => exact (reads_mark (by simp)).append t.reads
  | typeVariable name =>
    exact (reads_mark (by simp)).append (ReferenceType.typeVariable name).reads

theorem GenericSignature.reads_body (s : GenericSignature) : Reads typesAt s.body := by
  cases s with
  | ofClass _ super _ => exact super.reads.append (.concat fun t _ => t.reads)
  | ofMethod _ _ result _ =>
    have hopen : Reads typesAt (.plain ['(']) := reads_mark (by simp)
    have hclose : Reads typesAt (.plain [')']) := reads_mark (by simp)
    have hresult : Reads typesAt (result.elim (.plain ['V']) JavaType.written) := by
      cases result with
      | none => exact reads_mark (by simp)
      | some t => exact t.reads
    exact (((hopen.append (.concat fun t _ => t.reads)).append hclose).append
      hresult).append (.concat fun t _ => t.reads)
  | ofField type => exact type.reads

/-- The last piece of a text is read to the end. -/
theorem Reads.types {w : Written} (hw : Reads typesAt w) {n : Nat} (h : w.text.length < n) :
    types n w.text = some w.names := by
  obtain ⟨k, -, hread⟩ := hw n [] h
  have hend : typesAt k [] = some ([], []) := by
    rw [typesAt, Signature.types]
    rfl
  rw [hend, Option.map_some, List.append_nil, List.append_nil] at hread
  obtain ⟨names, hnames, heq⟩ := Option.map_eq_some_iff.mp hread
  rw [hnames, (Prod.mk.inj heq).1]

theorem parameters_written {ps : List TypeParameter} (hps : Apart ps) {n : Nat}
    (rest : List Char) (h : (Written.concat (ps.map TypeParameter.written)).text.length < n) :
    parameters n ((Written.concat (ps.map TypeParameter.written)).text ++ '>' :: rest) =
      some ((Written.concat (ps.map TypeParameter.written)).names, rest) := by
  induction ps generalizing n with
  | nil =>
    obtain ⟨n, rfl⟩ : ∃ k, n = k + 1 := ⟨n - 1, by omega⟩
    rfl
  | cons p ps ih =>
    have hsplit : Written.concat ((p :: ps).map TypeParameter.written) =
        p.written ++ .concat (ps.map TypeParameter.written) := rfl
    have htail : Apart ps := List.isChain_of_isChain_cons hps
    rw [hsplit, Written.text_append, List.length_append] at h
    rw [hsplit, Written.text_append, Written.names_append, List.append_assoc]
    by_cases hp : p.Bounded
    · obtain ⟨k, hk, hread⟩ := p.reads hp n _ (by omega)
      rw [hread, ih htail (by omega), Option.map_some]
    · obtain ⟨htext, hnames⟩ := TypeParameter.written_of_not_bounded hp
      obtain ⟨c, cs, hcs, hc⟩ := hps.exists_cons hp rest
      rw [htext, List.length_append, List.length_singleton] at h
      have hpos := List.length_pos_of_ne_nil p.name.nonempty
      obtain ⟨n, rfl⟩ : ∃ k, n = k + 2 := ⟨n - 2, by omega⟩
      have hread := ih (n := n) htail (by omega)
      rw [htext, hnames, List.append_assoc, List.singleton_append, hcs,
        parameters_unbounded p.name hc, ← hcs, hread, List.nil_append]

theorem GenericSignature.head?_body (s : GenericSignature) : s.body.text.head? ≠ some '<' := by
  cases s with
  | ofClass _ super _ =>
    obtain ⟨_, _, _⟩ := super
    simp [body, ClassType.written]
  | ofMethod _ _ _ _ => simp [body]
  | ofField type =>
    obtain ⟨c, cs, htext, hc⟩ := type.exists_cons
    rw [body, htext, List.head?_cons, ne_eq, Option.some_inj]
    rcases hc with rfl | rfl | rfl
    · decide
    · decide
    · decide

theorem classNames_of_head? {text : List Char} (h : text.head? ≠ some '<') :
    classNames text = types (2 * text.length + 2) text := by
  unfold classNames
  split
  · simp at h
  · rfl

theorem text_writtenParameters {ps : List TypeParameter} (hps : ps ≠ []) (w : Written) :
    (writtenParameters ps ++ w).text =
      '<' :: ((Written.concat (ps.map TypeParameter.written)).text ++ '>' :: w.text) := by
  obtain ⟨p, ps, rfl⟩ := List.exists_cons_of_ne_nil hps
  simp [writtenParameters]

theorem GenericSignature.classNames_of_apart (s : GenericSignature) (h : Apart s.parameters) :
    classNames s.written.text = some s.written.names := by
  rw [GenericSignature.written]
  cases hps : s.parameters with
  | nil =>
    change classNames s.body.text = some (Written.names (.plain [] ++ s.body))
    rw [classNames_of_head? s.head?_body, s.reads_body.types (by omega), Written.names_append]
    rfl
  | cons p ps =>
    rw [hps] at h
    have hnames : (writtenParameters (p :: ps) ++ s.body).names =
        (Written.concat ((p :: ps).map TypeParameter.written)).names ++ s.body.names := by
      simp [writtenParameters]
    rw [text_writtenParameters (List.cons_ne_nil p ps), hnames]
    simp only [classNames]
    rw [parameters_written h _ (by simp; omega), Option.bind_eq_bind, Option.bind_some,
      s.reads_body.types (by simp; omega)]
    rfl

theorem GenericSignature.classNames_written (s : GenericSignature)
    (h : ∀ p ∈ s.parameters, p.Bounded) : classNames s.written.text = some s.written.names :=
  s.classNames_of_apart (apart_of_bounded fun p hp => h p (List.dropLast_subset _ hp))

/-- The reader undoes writing: it accepts the text of every signature whose type parameters have
bounds, and gives the names of all class types in it in the order in which they end. -/
theorem referencedTypes_written (s : GenericSignature) (h : ∀ p ∈ s.parameters, p.Bounded) :
    referencedTypes (String.ofList s.written.text) = .ok s.written.names ∧
      s.written.ends.Pairwise fun a b => a.1 < b.1 := by
  refine ⟨?_, s.ordered.ascending⟩
  rw [referencedTypes, String.toList_ofList, s.classNames_written h]

/-- A method of a class with a type parameter, with wildcards, arrays, a class nested in another one
that has arguments, and two throws clauses. -/
def mapSignature : GenericSignature :=
  let e : Identifier := ⟨['E'], by decide, plain_of_all (by decide)⟩
  let a : Identifier := ⟨['a'], by decide, plain_of_all (by decide)⟩
  let map : Identifier := ⟨"Map".toList, by decide, plain_of_all (by decide)⟩
  let entry : Identifier := ⟨"Entry".toList, by decide, plain_of_all (by decide)⟩
  let key : ClassType := ⟨[a], ⟨⟨"Key".toList, by decide, plain_of_all (by decide)⟩, []⟩, []⟩
  let failure : ClassType :=
    ⟨[a, e], ⟨⟨"Failure".toList, by decide, plain_of_all (by decide)⟩, []⟩, []⟩
  .ofMethod [⟨e, none, [.object failure]⟩]
    [.reference (.object ⟨[a], ⟨map, [.bounded .upper (.object key), .any]⟩,
      [⟨entry, [.exact (.array (.primitiveArray .int))]⟩]⟩), .base .int,
      .reference (.array (.typeVariable e))]
    none [.typeVariable e, .classType failure]

theorem referencedTypes_written_map :
    (∀ p ∈ mapSignature.parameters, p.Bounded) ∧
    String.ofList mapSignature.written.text =
      "<E::La/E/Failure;>(La/Map<+La/Key;*>.Entry<[[I>;I[TE;)V^TE;^La/E/Failure;" ∧
    referencedTypes (String.ofList mapSignature.written.text) =
      .ok ["a/E/Failure", "a/Key", "a/Map$Entry", "a/E/Failure"] := by
  have hbounded : ∀ p ∈ mapSignature.parameters, p.Bounded := by
    intro p hp
    obtain rfl := List.mem_singleton.mp hp
    exact .inr (List.cons_ne_nil _ _)
  exact ⟨hbounded, by decide,
    (referencedTypes_written mapSignature hbounded).1.trans (by decide)⟩

end ClassDeps.ClassFile.Signature
