import ClassDeps.Proofs.ClassFile.SignatureReading
import Mathlib.Logic.Equiv.Basic

namespace ClassDeps.ClassFile.Signature

mutual

/-- The type with its type variables called what `ρ` makes of their names. -/
def ReferenceType.rename (ρ : Identifier → Identifier) : ReferenceType → ReferenceType
  | .typeVariable name => .typeVariable (ρ name)
  | .primitiveArray element => .primitiveArray element
  | .array element => .array (element.rename ρ)
  | .object type => .object (type.rename ρ)

def ClassType.rename (ρ : Identifier → Identifier) : ClassType → ClassType
  | ⟨package, outer, inner⟩ => ⟨package, outer.rename ρ, renameInner ρ inner⟩

def SimpleType.rename (ρ : Identifier → Identifier) : SimpleType → SimpleType
  | ⟨name, arguments⟩ => ⟨name, renameArguments ρ arguments⟩

def renameInner (ρ : Identifier → Identifier) : List SimpleType → List SimpleType
  | [] => []
  | type :: rest => type.rename ρ :: renameInner ρ rest

def renameArguments (ρ : Identifier → Identifier) : List Argument → List Argument
  | [] => []
  | argument :: rest => argument.rename ρ :: renameArguments ρ rest

def Argument.rename (ρ : Identifier → Identifier) : Argument → Argument
  | .any => .any
  | .exact type => .exact (type.rename ρ)
  | .bounded wildcard type => .bounded wildcard (type.rename ρ)

end

def JavaType.rename (ρ : Identifier → Identifier) : JavaType → JavaType
  | base type => base type
  | reference type => reference (type.rename ρ)

def TypeParameter.rename (ρ : Identifier → Identifier) (p : TypeParameter) : TypeParameter where
  name := ρ p.name
  classBound := p.classBound.map (ReferenceType.rename ρ)
  interfaceBounds := p.interfaceBounds.map (ReferenceType.rename ρ)

def Thrown.rename (ρ : Identifier → Identifier) : Thrown → Thrown
  | classType type => classType (type.rename ρ)
  | typeVariable name => typeVariable (ρ name)

/-- The signature with its type parameters, and all type variables, renamed. -/
def GenericSignature.rename (ρ : Identifier → Identifier) : GenericSignature → GenericSignature
  | ofClass parameters super interfaces =>
    ofClass (parameters.map (TypeParameter.rename ρ)) (super.rename ρ)
      (interfaces.map (ClassType.rename ρ))
  | ofMethod parameters arguments result thrown =>
    ofMethod (parameters.map (TypeParameter.rename ρ)) (arguments.map (JavaType.rename ρ))
      (result.map (JavaType.rename ρ)) (thrown.map (Thrown.rename ρ))
  | ofField type => ofField (type.rename ρ)

section

variable (ρ : Identifier → Identifier)

theorem SimpleType.name_rename (t : SimpleType) : (t.rename ρ).name = t.name := by
  obtain ⟨_, _⟩ := t
  rfl

theorem nestedText_renameInner (inner : List SimpleType) :
    nestedText (renameInner ρ inner) = nestedText inner := by
  induction inner with
  | nil => rfl
  | cons t inner ih =>
    rw [nestedText] at ih ⊢
    rw [renameInner, List.flatMap_cons, ih, t.name_rename]
    rfl

theorem ClassType.name_rename (t : ClassType) : (t.rename ρ).name = t.name := by
  obtain ⟨package, outer, inner⟩ := t
  rw [ClassType.rename, ClassType.name, ClassType.name, outer.name_rename, nestedText_renameInner]

mutual

theorem ReferenceType.names_rename : (t : ReferenceType) →
    (t.rename ρ).written.names = t.written.names
  | .typeVariable _ => rfl
  | .primitiveArray _ => rfl
  | .array element => by
    simp only [ReferenceType.rename, ReferenceType.written, Written.names_append,
      element.names_rename]
  | .object type => type.names_rename

theorem ClassType.names_rename : (t : ClassType) → (t.rename ρ).written.names = t.written.names
  | ⟨package, outer, inner⟩ => by
    have hname := ClassType.name_rename ρ ⟨package, outer, inner⟩
    rw [ClassType.rename] at hname ⊢
    simp only [ClassType.written, Written.names_closing, Written.names_append, hname,
      outer.names_rename, names_renameInner inner, Written.names_plain]

theorem SimpleType.names_rename : (t : SimpleType) → (t.rename ρ).written.names = t.written.names
  | ⟨_, arguments⟩ => by
    simp only [SimpleType.rename, SimpleType.written, Written.names_append,
      names_renameBracket arguments, Written.names_plain]

theorem names_renameInner : (inner : List SimpleType) →
    (writtenInner (renameInner ρ inner)).names = (writtenInner inner).names
  | [] => rfl
  | type :: rest => by
    simp only [renameInner, writtenInner, Written.names_append, type.names_rename,
      names_renameInner rest]

theorem names_renameBracket : (arguments : List Argument) →
    (writtenBracket (renameArguments ρ arguments)).names = (writtenBracket arguments).names
  | [] => rfl
  | argument :: rest => by
    simp only [renameArguments, writtenBracket, Written.names_append, argument.names_rename,
      names_renameArguments rest]

theorem names_renameArguments : (arguments : List Argument) →
    (writtenArguments (renameArguments ρ arguments)).names = (writtenArguments arguments).names
  | [] => rfl
  | argument :: rest => by
    simp only [renameArguments, writtenArguments, Written.names_append, argument.names_rename,
      names_renameArguments rest]

theorem Argument.names_rename : (a : Argument) → (a.rename ρ).written.names = a.written.names
  | .any => rfl
  | .exact type => type.names_rename
  | .bounded _ type => by
    simp only [Argument.rename, Argument.written, Written.names_append, type.names_rename]

end

theorem Written.names_concat_map {α : Type} {write : α → Written} {f : α → α}
    (h : ∀ a, (write (f a)).names = (write a).names) (items : List α) :
    (concat ((items.map f).map write)).names = (concat (items.map write)).names := by
  induction items with
  | nil => rfl
  | cons a items ih =>
    change (write (f a) ++ concat ((items.map f).map write)).names =
      (write a ++ concat (items.map write)).names
    rw [names_append, names_append, h, ih]

theorem Written.names_elim_map {α : Type} {write : α → Written} {f : α → α}
    (h : ∀ a, (write (f a)).names = (write a).names) (absent : Written) (item : Option α) :
    ((item.map f).elim absent write).names = (item.elim absent write).names := by
  cases item with
  | none => rfl
  | some a => exact h a

theorem JavaType.names_rename (t : JavaType) : (t.rename ρ).written.names = t.written.names := by
  cases t with
  | base _ => rfl
  | reference t => exact t.names_rename ρ

theorem Thrown.names_rename (t : Thrown) : (t.rename ρ).written.names = t.written.names := by
  cases t with
  | classType t => simp only [rename, written, Written.names_append, t.names_rename]
  | typeVariable _ => rfl

theorem TypeParameter.names_rename (p : TypeParameter) :
    (p.rename ρ).written.names = p.written.names := by
  have hbound : ∀ t, (writtenBound (t.rename ρ)).names = (writtenBound t).names := fun t => by
    rw [writtenBound, writtenBound, Written.names_append, Written.names_append, t.names_rename]
  have hclass := Written.names_elim_map hbound (.plain [':']) p.classBound
  have hinterfaces := Written.names_concat_map hbound p.interfaceBounds
  rw [written, written, Written.names_append, Written.names_append, Written.names_append,
    Written.names_append, ← hclass, ← hinterfaces]
  rfl

theorem GenericSignature.parameters_rename (s : GenericSignature) :
    (s.rename ρ).parameters = s.parameters.map (TypeParameter.rename ρ) := by
  cases s with
  | ofClass _ _ _ => rfl
  | ofMethod _ _ _ _ => rfl
  | ofField _ => rfl

theorem names_writtenParameters (ps : List TypeParameter) :
    (writtenParameters ps).names = (Written.concat (ps.map TypeParameter.written)).names := by
  cases ps with
  | nil => rfl
  | cons p ps => simp [writtenParameters]

theorem GenericSignature.names_body_rename (s : GenericSignature) :
    (s.rename ρ).body.names = s.body.names := by
  cases s with
  | ofClass _ super interfaces =>
    simp only [rename, body, Written.names_append, super.names_rename,
      Written.names_concat_map (ClassType.names_rename ρ)]
  | ofMethod _ arguments result thrown =>
    simp only [rename, body, Written.names_append,
      Written.names_concat_map (JavaType.names_rename ρ),
      Written.names_elim_map (JavaType.names_rename ρ),
      Written.names_concat_map (Thrown.names_rename ρ)]
  | ofField type => exact type.names_rename ρ

theorem GenericSignature.names_rename (s : GenericSignature) :
    (s.rename ρ).written.names = s.written.names := by
  rw [written, written, Written.names_append, Written.names_append, names_writtenParameters,
    names_writtenParameters, s.parameters_rename,
    Written.names_concat_map (TypeParameter.names_rename ρ), s.names_body_rename]

theorem TypeParameter.bounded_rename_iff (p : TypeParameter) :
    (p.rename ρ).Bounded ↔ p.Bounded := by
  rw [Bounded, Bounded, rename, Option.isSome_map, ne_eq, List.map_eq_nil_iff]

end

/-- The last name that is read starts with what has been read of it. -/
theorem exists_extended_of_classType {n : Nat} {name cs rest : List Char} {names : List String}
    (h : classType n name cs = some (names, rest)) : ∃ x ∈ names, name <+: x.toList := by
  induction n generalizing name cs names rest with
  | zero => cases h
  | succ n ih =>
    cases cs with
    | nil => cases h
    | cons c cs =>
      rw [classType] at h
      split at h
      · obtain ⟨⟨inner, _⟩, -, h⟩ := Option.bind_eq_some_iff.mp h
        obtain ⟨⟨outer, _⟩, houter, h⟩ := Option.bind_eq_some_iff.mp h
        cases h
        obtain ⟨x, hx, hname⟩ := ih houter
        exact ⟨x, List.mem_append_right inner hx, hname⟩
      · split at h
        · obtain ⟨x, hx, hname⟩ := ih h
          exact ⟨x, hx, (List.prefix_append _ _).trans hname⟩
        · split at h
          · split at h
            · cases h
            · cases h
              exact ⟨_, List.mem_singleton_self _, by simp⟩
          · cases h

theorem exists_colon_of_reference {n : Nat} {own cs rest : List Char} {names : List String}
    (hown : ∀ c ∈ own, endsName c = false)
    (h : reference n 'L' (own ++ ':' :: cs) = some (names, rest)) :
    ∃ x ∈ names, ':' ∈ x.toList := by
  cases n with
  | zero => cases h
  | succ n =>
    change classType n ((own ++ ':' :: cs).takeWhile _) _ = _ at h
    obtain ⟨x, hx, hname⟩ := exists_extended_of_classType h
    refine ⟨x, hx, hname.subset ?_⟩
    rw [List.takeWhile_append_of_pos (by simpa using hown), List.takeWhile_cons_of_pos (by decide)]
    simp

theorem TypeParameter.exists_text (p : TypeParameter) :
    ∃ tail, p.written.text = p.name.text ++ ':' :: tail := by
  rw [written]
  cases p.classBound with
  | none => exact ⟨_, rfl⟩
  | some t => exact ⟨_, rfl⟩

theorem Written.text_concat (pieces : List Written) :
    (concat pieces).text = pieces.flatMap text := by
  induction pieces with
  | nil => rfl
  | cons w pieces ih =>
    change (w ++ concat pieces).text = _
    rw [text_append, ih, List.flatMap_cons]

/-- Right after the first parameter without bounds, a name with `L` in front is read as a class type
up to a semicolon or a bracket, and so with the colon after it. -/
theorem exists_colon_of_parameters {front back : List TypeParameter} {p q : TypeParameter}
    (hfront : ∀ r ∈ front, r.Bounded) (hp : ¬p.Bounded) {own : List Char}
    (hq : q.name.text = 'L' :: own) {n : Nat} {rest left : List Char} {names : List String}
    (hn : (Written.concat ((front ++ p :: q :: back).map TypeParameter.written)).text.length < n)
    (h : parameters n ((Written.concat
      ((front ++ p :: q :: back).map TypeParameter.written)).text ++ rest) = some (names, left)) :
    ∃ x ∈ names, ':' ∈ x.toList := by
  obtain ⟨tail, htail⟩ := q.exists_text
  have htext : (Written.concat ((front ++ p :: q :: back).map TypeParameter.written)).text =
      (Written.concat (front.map TypeParameter.written)).text ++ (p.name.text ++ ':' :: 'L' ::
        (own ++ ':' :: (tail ++ (Written.concat (back.map TypeParameter.written)).text))) := by
    simp [Written.text_concat, htail, hq, (TypeParameter.written_of_not_bounded hp).1]
  have hpos := List.length_pos_of_ne_nil p.name.nonempty
  have hreads : Reads parameters (.concat (front.map TypeParameter.written)) :=
    .concat fun r hr => r.reads (hfront r hr)
  rw [htext] at h hn
  simp only [List.length_append, List.length_cons] at hn
  rw [List.append_assoc] at h
  obtain ⟨k, hk, hread⟩ := hreads n _ (by omega)
  rw [hread] at h
  obtain ⟨⟨found, _⟩, hfound, heq⟩ := Option.map_eq_some_iff.mp h
  cases heq
  obtain ⟨k, rfl⟩ : ∃ j, k = j + 2 := ⟨k - 2, by omega⟩
  rw [List.append_assoc, List.cons_append, parameters_name, List.cons_append,
    parameters_bound (.inl rfl), andThen] at hfound
  obtain ⟨⟨first, _⟩, hfirst, hfound⟩ := Option.bind_eq_some_iff.mp hfound
  obtain ⟨⟨more, _⟩, -, hfound⟩ := Option.bind_eq_some_iff.mp hfound
  cases hfound
  rw [List.append_assoc, List.cons_append] at hfirst
  have hplain : ∀ c ∈ own, endsName c = false := by
    intro c hc
    have hname : c ∈ q.name.text := by rw [hq]; exact List.mem_cons_of_mem _ hc
    exact endsName_of_mem hname
  obtain ⟨x, hx, hcolon⟩ := exists_colon_of_reference hplain hfirst
  exact ⟨x, List.mem_append_right _ (List.mem_append_left _ hx), hcolon⟩

/-- Every name in the piece is that of a class type. -/
def Written.Named (w : Written) : Prop :=
  ∀ x ∈ w.names, ∃ t : ClassType, t.name = x

namespace Written

theorem named_plain (text : List Char) : (plain text).Named :=
  fun _ h => nomatch h

theorem Named.append {a b : Written} (ha : a.Named) (hb : b.Named) : (a ++ b).Named := by
  intro x hx
  rw [names_append, List.mem_append] at hx
  exact hx.elim (ha x) (hb x)

theorem Named.closing {w : Written} (h : w.Named) (t : ClassType) : (w.closing t.name).Named := by
  intro x hx
  rw [names_closing, List.mem_append, List.mem_singleton] at hx
  exact hx.elim (h x) fun hx => ⟨t, hx.symm⟩

theorem Named.concat {α : Type} {write : α → Written} (h : ∀ a, (write a).Named)
    (items : List α) : (concat (items.map write)).Named := by
  induction items with
  | nil => exact named_plain _
  | cons a items ih => exact (h a).append ih

theorem Named.elim {α : Type} {write : α → Written} (h : ∀ a, (write a).Named)
    (text : List Char) (item : Option α) : (item.elim (plain text) write).Named := by
  cases item with
  | none => exact named_plain _
  | some a => exact h a

end Written

open Written

mutual

theorem ReferenceType.named : (t : ReferenceType) → t.written.Named
  | .typeVariable _ => named_plain _
  | .primitiveArray _ => named_plain _
  | .array element => (named_plain _).append element.named
  | .object type => type.named

theorem ClassType.named : (t : ClassType) → t.written.Named
  | ⟨_, outer, inner⟩ =>
    ((((named_plain _).append outer.named).append (named_writtenInner inner)).append
      (named_plain _)).closing _

theorem SimpleType.named : (t : SimpleType) → t.written.Named
  | ⟨_, arguments⟩ => (named_plain _).append (named_writtenBracket arguments)

theorem named_writtenInner : (inner : List SimpleType) → (writtenInner inner).Named
  | [] => named_plain _
  | type :: rest => ((named_plain _).append type.named).append (named_writtenInner rest)

theorem named_writtenBracket : (arguments : List Argument) → (writtenBracket arguments).Named
  | [] => named_plain _
  | argument :: rest =>
    ((named_plain _).append (argument.named.append (named_writtenArguments rest))).append
      (named_plain _)

theorem named_writtenArguments : (arguments : List Argument) → (writtenArguments arguments).Named
  | [] => named_plain _
  | argument :: rest => argument.named.append (named_writtenArguments rest)

theorem Argument.named : (a : Argument) → a.written.Named
  | .any => named_plain _
  | .exact type => type.named
  | .bounded _ type => (named_plain _).append type.named

end

theorem JavaType.named (t : JavaType) : t.written.Named := by
  cases t with
  | base _ => exact named_plain _
  | reference t => exact t.named

theorem Thrown.named (t : Thrown) : t.written.Named := by
  cases t with
  | classType t => exact (named_plain _).append t.named
  | typeVariable _ => exact (named_plain _).append (named_plain _)

theorem TypeParameter.named (p : TypeParameter) : p.written.Named := by
  have hbound : ∀ t, (writtenBound t).Named := fun t => (named_plain _).append t.named
  exact (named_plain _).append ((Named.elim hbound _ _).append (.concat hbound _))

theorem GenericSignature.named (s : GenericSignature) : s.written.Named := by
  have hparameters : (writtenParameters s.parameters).Named := by
    cases s.parameters with
    | nil => exact named_plain _
    | cons p ps =>
      exact ((named_plain _).append (.concat TypeParameter.named _)).append (named_plain _)
  refine hparameters.append ?_
  cases s with
  | ofClass _ super _ => exact super.named.append (.concat ClassType.named _)
  | ofMethod _ _ _ _ =>
    exact ((((named_plain _).append (.concat JavaType.named _)).append
      (named_plain _)).append (.elim JavaType.named _ _)).append (.concat Thrown.named _)
  | ofField type => exact type.named

theorem ClassType.colon_not_mem_name (t : ClassType) : ':' ∉ t.name.toList := by
  have hplain : ∀ name : Identifier, ':' ∉ name.text := fun name hmem =>
    name.plain ':' hmem (by decide)
  obtain ⟨package, outer, inner⟩ := t
  simp [ClassType.name, packageText, nestedText, hplain]

/-- The name that is the one character. -/
def Identifier.letter (c : Char) (h : reserved.contains c = false) : Identifier where
  text := [c]
  nonempty := List.cons_ne_nil c []
  plain := plain_of_all (by rw [List.all_cons, h]; rfl)

/-- If not only the last parameter is without bounds, there is a first one, with another behind. -/
theorem exists_first_of_not_bounded {ps : List TypeParameter}
    (h : ¬∀ p ∈ ps.dropLast, p.Bounded) : ∃ front p q back, ps = front ++ p :: q :: back ∧
      (∀ r ∈ front, r.Bounded) ∧ ¬p.Bounded := by
  induction ps with
  | nil => exact absurd (fun p hp => nomatch hp) h
  | cons p ps ih =>
    cases ps with
    | nil => exact absurd (fun p hp => nomatch hp) h
    | cons q ps =>
      by_cases hp : p.Bounded
      · rw [List.dropLast_cons_of_ne_nil (List.cons_ne_nil q ps), List.forall_mem_cons] at h
        obtain ⟨front, p', q', back, heq, hfront, hp'⟩ := ih fun hps => h ⟨hp, hps⟩
        refine ⟨p :: front, p', q', back, by rw [heq, List.cons_append], ?_, hp'⟩
        exact List.forall_mem_cons.mpr ⟨hp, hfront⟩
      · exact ⟨[], p, q, ps, rfl, fun r hr => (nomatch hr), hp⟩

theorem GenericSignature.classNames_ne {s : GenericSignature} {front back : List TypeParameter}
    {p q : TypeParameter} (hps : s.parameters = front ++ p :: q :: back)
    (hfront : ∀ r ∈ front, r.Bounded) (hp : ¬p.Bounded) {own : List Char}
    (hq : q.name.text = 'L' :: own) : classNames s.written.text ≠ some s.written.names := by
  intro h
  have hne : s.parameters ≠ [] := by simp [hps]
  rw [GenericSignature.written, text_writtenParameters hne] at h
  obtain ⟨⟨bounds, _⟩, hbounds, h⟩ := Option.bind_eq_some_iff.mp h
  obtain ⟨others, -, h⟩ := Option.bind_eq_some_iff.mp h
  rw [hps] at hbounds
  obtain ⟨x, hx, hcolon⟩ := exists_colon_of_parameters hfront hp hq (by simp; omega) hbounds
  obtain ⟨t, rfl⟩ : ∃ t : ClassType, t.name = x := by
    apply s.named
    rw [GenericSignature.written, ← Option.some.inj h]
    exact List.mem_append_left others hx
  exact t.colon_not_mem_name hcolon

theorem referencedTypes_eq_ok_iff {text : List Char} {names : List String} :
    referencedTypes (String.ofList text) = .ok names ↔ classNames text = some names := by
  rw [referencedTypes, String.toList_ofList]
  cases classNames text with
  | none => simp
  | some found => simp

/-- Where no parameter without bounds stands right before a name that starts as a type does, the
names make no difference. They make none at all exactly if every parameter that has another one
behind it has bounds. -/
theorem referencedTypes_rename (s : GenericSignature) :
    (∀ ρ : Identifier → Identifier, Apart s.parameters → Apart (s.rename ρ).parameters →
      referencedTypes (String.ofList s.written.text) = .ok s.written.names ∧
      referencedTypes (String.ofList (s.rename ρ).written.text) = .ok s.written.names) ∧
    ((∀ ρ : Equiv.Perm Identifier,
      referencedTypes (String.ofList (s.rename ρ).written.text) = .ok s.written.names) ↔
      ∀ p ∈ s.parameters.dropLast, p.Bounded) := by
  have hrename : ∀ ρ, Apart (s.rename ρ).parameters →
      classNames (s.rename ρ).written.text = some s.written.names := by
    intro ρ hρ
    rw [(s.rename ρ).classNames_of_apart hρ, s.names_rename]
  simp only [referencedTypes_eq_ok_iff]
  refine ⟨fun ρ hs hρ => ⟨s.classNames_of_apart hs, hrename ρ hρ⟩, ⟨fun h => ?_, fun h ρ => ?_⟩⟩
  · -- Otherwise the name behind the first parameter without bounds may change places with `L`.
    by_contra hbounded
    obtain ⟨front, p, q, back, hps, hfront, hp⟩ := exists_first_of_not_bounded hbounded
    classical
    let ρ : Equiv.Perm Identifier := Equiv.swap q.name (.letter 'L' rfl)
    have hrenamed : (s.rename ρ).parameters = front.map (TypeParameter.rename ρ) ++
        p.rename ρ :: q.rename ρ :: back.map (TypeParameter.rename ρ) := by
      simp [s.parameters_rename, hps]
    have hq : (q.rename ρ).name.text = ['L'] :=
      congrArg Identifier.text (Equiv.swap_apply_left q.name _)
    refine GenericSignature.classNames_ne hrenamed ?_ ?_ hq ((h ρ).trans ?_)
    · rw [List.forall_mem_map]
      simpa only [TypeParameter.bounded_rename_iff] using hfront
    · rwa [TypeParameter.bounded_rename_iff]
    · rw [s.names_rename]
  · apply hrename
    apply apart_of_bounded
    rw [s.parameters_rename, ← List.map_dropLast, List.forall_mem_map]
    simpa only [TypeParameter.bounded_rename_iff] using h

/-- A class with two parameters, the first without bounds. -/
def looseSignature : GenericSignature :=
  let a : Identifier := .letter 'a' rfl
  let upper : ClassType := ⟨[a], ⟨.letter 'C' rfl, []⟩, []⟩
  let super : ClassType := ⟨[a], ⟨.letter 'D' rfl, []⟩, []⟩
  .ofClass [⟨.letter 'A' rfl, none, []⟩, ⟨.letter 'B' rfl, some (.object upper), []⟩] super []

/-- Calls the second parameter `name`. -/
def callSecond (name : Identifier) (x : Identifier) : Identifier :=
  if x.text = ['B'] then name else x

theorem referencedTypes_rename_loose :
    String.ofList looseSignature.written.text = "<A:B:La/C;>La/D;" ∧
    referencedTypes (String.ofList looseSignature.written.text) = .ok ["a/C", "a/D"] ∧
    referencedTypes (String.ofList (looseSignature.rename
      (callSecond (.letter 'M' rfl))).written.text) = .ok ["a/C", "a/D"] ∧
    ∃ ρ : Equiv.Perm Identifier, referencedTypes (String.ofList
      (looseSignature.rename ρ).written.text) ≠ .ok looseSignature.written.names := by
  have hnames : looseSignature.written.names = ["a/C", "a/D"] := by decide
  obtain ⟨hread, hall⟩ := referencedTypes_rename looseSignature
  obtain ⟨hloose, hrenamed⟩ := hread (callSecond (.letter 'M' rfl)) (by decide) (by decide)
  rw [hnames] at hloose hrenamed
  refine ⟨by decide, hloose, hrenamed, not_forall.mp fun h => ?_⟩
  exact absurd (hall.mp h _ (List.mem_cons_self ..)) (by decide)

/-- The second parameter called `L` is read as a class type that swallows its bound. -/
theorem referencedTypes_differs_renamed :
    String.ofList looseSignature.written.text = "<A:B:La/C;>La/D;" ∧
    referencedTypes "<A:B:La/C;>La/D;" = .ok ["a/C", "a/D"] ∧
    String.ofList (looseSignature.rename (callSecond (.letter 'L' rfl))).written.text =
      "<A:L:La/C;>La/D;" ∧
    referencedTypes "<A:L:La/C;>La/D;" = .ok [":La/C", "a/D"] := by
  decide

end ClassDeps.ClassFile.Signature
