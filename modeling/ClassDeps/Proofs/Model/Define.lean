import ClassDeps.Proofs.Model.View
import Mathlib.Data.Set.Image

namespace ClassDeps

namespace ClassDefinition

/-- The names that a definition brings into a model. -/
def mentions (d : ClassDefinition) : Set String :=
  { name | name = d.name ∨ name ∈ d.uses ∨ name ∈ d.annotations }

/-- The definition as a model keeps it: a class does not use itself. -/
def proper (d : ClassDefinition) : ClassDefinition :=
  { d with uses := d.uses.erase d.name }

theorem proper_eq_self {d : ClassDefinition} (h : d.name ∉ d.uses) : d.proper = d := by
  have hu : d.uses.erase d.name = d.uses := by
    apply Std.ExtTreeSet.ext_mem
    intro name
    simp only [Std.ExtTreeSet.mem_erase, Std.LawfulEqCmp.compare_eq_iff_eq, ne_eq,
      and_iff_right_iff_imp]
    rintro hn rfl
    exact h hn
  rw [proper, hu]

def content (d : ClassDefinition) : ClassContent :=
  { d with defined := true }

theorem content_injective : Function.Injective content := by
  intro d e h
  exact congrArg ClassContent.toClassDefinition h

end ClassDefinition

namespace View

/-- What is said of a class once it is mentioned. -/
def known (v : View) (name : String) : ClassContent :=
  (v.classes name).getD (.mentioned name)

/-- Mentions the class `target` and changes the class `name` on its account. -/
def attach (v : View) (name : String) (f : ClassContent → String → ClassContent)
    (target : String) : View :=
  (v.mention target).update name (f · target)

theorem attach_self {v : View} {name : String} {c : ClassContent} (hc : v.classes name = some c)
    (f : ClassContent → String → ClassContent) (target : String) :
    (v.attach name f target).classes name = some (f c target) := by
  by_cases ht : name = target
  · simp [attach, update, mention, ← ht, hc]
  · simp [attach, update, mention, ht, hc]

theorem attach_other (v : View) {name other : String} (ho : other ≠ name)
    (f : ClassContent → String → ClassContent) (target : String) :
    (v.attach name f target).classes other =
      if other = target then some (v.known other) else v.classes other := by
  by_cases ht : other = target
  · simp [attach, update, mention, known, ho, ← ht]
  · simp [attach, update, mention, ho, ht]

theorem foldl_attach (v : View) {name : String} {c : ClassContent} (hc : v.classes name = some c)
    (f : ClassContent → String → ClassContent) (targets : List String) :
    targets.foldl (attach · name f ·) v = {
      classes := fun other =>
        if other = name then some (targets.foldl f c)
        else if other ∈ targets then some (v.known other)
        else v.classes other
      packages := v.packages ∪ Name.packageOf '' { t | t ∈ targets }
      annotations := v.annotations } := by
  induction targets generalizing v c with
  | nil =>
    apply View.ext
    · funext other
      by_cases ho : other = name
      · simp [ho, hc]
      · simp [ho]
    · simp
    · rfl
  | cons t ts ih =>
    rw [List.foldl_cons, ih _ (attach_self hc f t)]
    apply View.ext
    · funext other
      by_cases ho : other = name
      · simp [ho]
      · have hknown : (v.attach name f t).known other = v.known other := by
          rw [known, attach_other v ho]
          split_ifs <;> rfl
        simp only [ho, if_false, hknown, attach_other v ho, List.mem_cons]
        by_cases ht : other = t
        · simp [ht]
        · simp [ht]
    · ext package
      simp only [attach, update, mention, Set.mem_union, Set.mem_insert_iff, Set.mem_image,
        Set.mem_ofPred_eq, List.mem_cons, exists_eq_or_imp]
      tauto
    · rfl

theorem foldl_addUse (v : View) (name : String) (targets : List String) :
    targets.foldl (addUse · name ·) v =
      (targets.filter (· ≠ name)).foldl
        (attach · name (fun c t => { c with uses := c.uses.insert t }) ·) v := by
  rw [List.foldl_filter]
  congr 1
  funext v t
  by_cases ht : t = name
  · simp [addUse, ht]
  · simp [addUse, attach, ht, Ne.symm ht]

theorem foldl_annotate (v : View) (name : String) (types : List String) :
    types.foldl (annotate · name ·) v =
      types.foldl (attach · name (fun c t => { c with annotations := c.annotations.insert t }) ·)
        v := rfl

theorem foldl_insert_uses (c : ClassContent) (names : List String) :
    names.foldl (fun (c : ClassContent) t => { c with uses := c.uses.insert t }) c =
      { c with uses := c.uses.insertMany names } := by
  induction names generalizing c with
  | nil => simp [Std.ExtTreeSet.insertMany_nil]
  | cons t ts ih => rw [List.foldl_cons, ih, Std.ExtTreeSet.insertMany_cons]

theorem foldl_insert_annotations (c : ClassContent) (names : List String) :
    names.foldl (fun (c : ClassContent) t => { c with annotations := c.annotations.insert t }) c =
      { c with annotations := c.annotations.insertMany names } := by
  induction names generalizing c with
  | nil => simp [Std.ExtTreeSet.insertMany_nil]
  | cons t ts ih => rw [List.foldl_cons, ih, Std.ExtTreeSet.insertMany_cons]

end View

/-- What is said of a class once a definition has been added to what was said before. -/
def ClassContent.filled (c : ClassContent) (d : ClassDefinition) : ClassContent where
  name := c.name
  size := d.size
  codeSize := d.codeSize
  outer := d.outer
  annotations := c.annotations.insertMany d.annotations.toList
  uses := c.uses.insertMany (d.uses.toList.filter (· ≠ d.name))
  defined := true

namespace View

theorem fill_eq {v : View} {d : ClassDefinition} {c : ClassContent}
    (hc : v.classes d.name = some c) :
    v.fill d = {
      classes := fun name =>
        if name = d.name then some (c.filled d)
        else if name ∈ d.uses ∨ name ∈ d.annotations then some (v.known name)
        else v.classes name
      packages := v.packages ∪ Name.packageOf '' { t | t ∈ d.uses ∧ t ≠ d.name } ∪
        Name.packageOf '' { t | t ∈ d.annotations }
      annotations := fun package =>
        if Name.isPackageInfo d.name ∧ package = Name.packageOf d.name then
          (v.annotations package).insertMany
            (c.annotations.insertMany d.annotations.toList).toList
        else v.annotations package } := by
  let v₁ := v.update d.name fun c =>
    { c with defined := true, size := d.size, codeSize := d.codeSize, outer := d.outer }
  let v₂ := d.uses.toList.foldl (addUse · d.name ·) v₁
  let v₃ := d.annotations.toList.foldl (annotate · d.name ·) v₂
  have h₁ : v₁.classes d.name = some { c with
      defined := true, size := d.size, codeSize := d.codeSize, outer := d.outer } := by
    simp [v₁, update, hc]
  have e₂ := foldl_attach v₁ h₁ (fun c t => { c with uses := c.uses.insert t })
    (d.uses.toList.filter (· ≠ d.name))
  rw [← foldl_addUse, foldl_insert_uses] at e₂
  change v₂ = _ at e₂
  have h₂ : v₂.classes d.name = some { c with
      defined := true, size := d.size, codeSize := d.codeSize, outer := d.outer,
      uses := c.uses.insertMany (d.uses.toList.filter (· ≠ d.name)) } := by
    rw [e₂]
    simp
  have e₃ := foldl_attach v₂ h₂ (fun c t => { c with annotations := c.annotations.insert t })
    d.annotations.toList
  rw [← foldl_annotate, foldl_insert_annotations] at e₃
  change v₃ = _ at e₃
  have hknown : ∀ name, name ≠ d.name → v₂.known name = v.known name := by
    intro name hn
    rw [e₂]
    by_cases hu : name ∈ d.uses
    · simp [known, v₁, update, hn, hu]
    · simp [known, v₁, update, hn, hu]
  change v₃.annotatePackage d.name = _
  apply View.ext
  · funext name
    by_cases hn : name = d.name
    · simp [annotatePackage, e₃, hn, ClassContent.filled]
    · by_cases ha : name ∈ d.annotations
      · simp [annotatePackage, e₃, hn, ha, hknown]
      · by_cases hu : name ∈ d.uses
        · simp [annotatePackage, e₃, e₂, hn, ha, hu, known, v₁, update]
        · simp [annotatePackage, e₃, e₂, hn, ha, hu, v₁, update]
  · simp [annotatePackage, e₃, e₂, v₁, update]
  · funext package
    simp [annotatePackage, e₃, e₂, v₁, update]

end View

namespace Model

variable {m : Model}

/-- The class that a definition is for is the one known by its name. -/
theorem Coherent.contentOf_interned (h : m.Coherent) {name : String} {c : ClassNode}
    (hc : (m.internClass name).2.classes.get? (m.internClass name).1 = some c)
    (hn : c.name = name) : (m.internClass name).2.contentOf c = m.view.known name := by
  have hcontent := (h.internClass name).classContent?_name hc
  have hview := congrArg (View.classes · name) (h.view_internClass name)
  simp only [View.mention, if_true] at hview
  rw [hn] at hcontent
  exact Option.some_inj.mp (hcontent.symm.trans hview)

/-- A class that is not defined yet takes the definition. -/
theorem Coherent.define_of_undefined (h : m.Coherent) {d : ClassDefinition}
    (hd : (m.view.known d.name).defined = false) :
    (∃ i, (m.define d).1 = .ok i) ∧ (m.define d).2.view = {
      classes := fun name =>
        if name = d.name then some ((m.view.known d.name).filled d)
        else if name ∈ d.uses ∨ name ∈ d.annotations then some (m.view.known name)
        else m.view.classes name
      packages := m.view.packages ∪ Name.packageOf '' d.mentions
      annotations := fun package =>
        if Name.isPackageInfo d.name ∧ package = Name.packageOf d.name then
          (m.view.annotations package).insertMany
            ((m.view.known d.name).annotations.insertMany d.annotations.toList).toList
        else m.view.annotations package } := by
  have hself : (m.view.mention d.name).classes d.name = some (m.view.known d.name) := by
    simp [View.mention, View.known]
  have hview := h.view_internClass d.name
  obtain ⟨c, hc, hn, hcases⟩ := h.define_cases d
  have hcd : c.defined = false := by
    rw [← hd, ← h.contentOf_interned hc hn]
    rfl
  obtain ⟨-, he⟩ | ⟨hdef, -⟩ | ⟨hdef, -⟩ := hcases
  · refine ⟨⟨_, by rw [he]⟩, ?_⟩
    rw [he, (h.internClass d.name).view_fill hc hcd hn, hview, View.fill_eq hself]
    apply View.ext
    · funext name
      by_cases hnd : name = d.name
      · simp [hnd]
      · simp [hnd, View.mention, View.known]
    · ext package
      simp only [View.mention, ClassDefinition.mentions, Set.mem_union, Set.mem_insert_iff,
        Set.mem_image, Set.mem_ofPred_eq]
      constructor
      · rintro (((rfl | hp) | ⟨t, ⟨ht, -⟩, rfl⟩) | ⟨t, ht, rfl⟩)
        · exact .inr ⟨d.name, .inl rfl, rfl⟩
        · exact .inl hp
        · exact .inr ⟨t, .inr (.inl ht), rfl⟩
        · exact .inr ⟨t, .inr (.inr ht), rfl⟩
      · rintro (hp | ⟨t, rfl | ht | ht, rfl⟩)
        · exact .inl (.inl (.inr hp))
        · exact .inl (.inl (.inl rfl))
        · by_cases htd : t = d.name
          · exact .inl (.inl (.inl (by rw [htd])))
          · exact .inl (.inr ⟨t, ⟨ht, htd⟩, rfl⟩)
        · exact .inr ⟨t, ht, rfl⟩
    · rfl
  · rw [hcd] at hdef
    cases hdef
  · rw [hcd] at hdef
    cases hdef

/-- A class that is defined accepts its own definition and no other. -/
theorem Coherent.define_of_defined (h : m.Coherent) {d : ClassDefinition} {x : ClassContent}
    (hx : m.classContent? d.name = some x) (hd : x.defined = true) :
    (m.define d).2 = m ∧
      ((∃ i, (m.define d).1 = .ok i) ∧ x = d.content ∨
        (m.define d).1 = .error ⟨d.name⟩ ∧ x ≠ d.content) := by
  obtain ⟨c, hc, hn, hcases⟩ := h.define_cases d
  have hcx : (m.internClass d.name).2.contentOf c = x := by
    rw [h.contentOf_interned hc hn, View.known, show m.view.classes d.name = some x from hx]
    rfl
  have hcd : c.defined = true := by
    rw [← hd, ← hcx]
    rfl
  obtain ⟨hdef, -⟩ | ⟨-, hold, heq, he⟩ | ⟨-, hold, hne, he⟩ := hcases
  · rw [hcd] at hdef
    cases hdef
  · rw [hold] at hcx
    refine ⟨by rw [he], .inl ⟨⟨_, by rw [he]⟩, ?_⟩⟩
    rw [← hcx, contentOf, heq, hcd]
    rfl
  · rw [hold] at hcx
    refine ⟨by rw [he], .inr ⟨by rw [he], ?_⟩⟩
    intro hxd
    rw [← hcx] at hxd
    exact hne (congrArg ClassContent.toClassDefinition hxd)

/-- The model defines the class otherwise. -/
def Conflicts (m : Model) (d : ClassDefinition) : Prop :=
  ∃ x, m.classContent? d.name = some x ∧ x.defined = true ∧ x ≠ d.content

theorem contentOf_eq_content_iff {c : ClassNode} {d : ClassDefinition} (hd : c.defined = true) :
    m.contentOf c = d.content ↔ m.definitionOf c = d := by
  rw [contentOf, hd]
  exact ClassDefinition.content_injective.eq_iff

/-- A definition that is refused changes nothing, whatever the model. -/
theorem define_eq_error_iff {d : ClassDefinition} {e : Conflict} {m' : Model} :
    m.define d = (.error e, m') ↔ m' = m ∧ m.Conflicts d ∧ e = ⟨d.name⟩ := by
  rcases internClass_cases m d.name with ⟨i, hi, he⟩ | ⟨hnone, he⟩
  · have hcontent : m.classContent? d.name = (m.classes.get? i).map m.contentOf := by
      rw [classContent?, hi, Option.bind_some]
    rw [define, he, Conflicts, hcontent]
    cases hc : m.classes.get? i with
    | none => simp [hc]
    | some c =>
      cases hd : c.defined with
      | false => simp [hc, hd, contentOf]
      | true =>
        have hx : (m.contentOf c).defined = true := hd
        have hiff : m.contentOf c = d.content ↔ m.definitionOf c = d := contentOf_eq_content_iff hd
        by_cases hsame : m.definitionOf c = d
        · simp [hc, hd, hsame, hiff.mpr hsame]
        · simp [hc, hd, hx, hsame, hiff, and_comm, @eq_comm _ m', @eq_comm _ e]
  · -- A class that was not there before is not defined, so that there is nothing to refuse.
    have hnew : (m.internClass d.name).2.classes.get? (m.internClass d.name).1 =
        some (.mentioned d.name (m.internPackage (Name.packageOf d.name)).1) := by
      rw [he, Model.addClass, Arena.get?_add, internPackage_classes, if_pos rfl]
    simp [define, hnew, ClassNode.mentioned, Conflicts, classContent?, hnone]

/-- Why a class cannot be imported: its bytes are not those of a class, they name something that is
no type, or the model defines the class otherwise. -/
inductive ImportFault (m : Model) (data : List UInt8) (location : String) : ImportError → Prop
  | undecodable {cause : ClassFile.Malformed} : ClassFile.decode data = .error cause →
    ImportFault m data location (.malformed location cause)
  | untyped {c : ClassFile} {cause : ClassFile.Malformed} : ClassFile.decode data = .ok c →
    c.definition = .error cause → ImportFault m data location (.malformed location cause)
  | conflict {c : ClassFile} {d : ClassDefinition} : ClassFile.decode data = .ok c →
    c.definition = .ok d → m.Conflicts d → ImportFault m data location (.conflict ⟨d.name⟩)

theorem importClass_eq_error_iff {data : List UInt8} {location : String} {e : ImportError}
    {m' : Model} :
    m.importClass data location = (.error e, m') ↔ m' = m ∧ m.ImportFault data location e := by
  constructor
  · intro h
    unfold importClass ClassDefinition.ofBytes at h
    cases hdecode : ClassFile.decode data with
    | error cause =>
      rw [hdecode] at h
      cases h
      exact ⟨rfl, .undecodable hdecode⟩
    | ok c =>
      cases hc : c.definition with
      | error cause =>
        simp only [hdecode, hc, bind, Except.bind] at h
        cases h
        exact ⟨rfl, .untyped hdecode hc⟩
      | ok d =>
        rcases hdefine : m.define d with ⟨cause | i, m₁⟩
        · simp only [hdecode, hc, hdefine, bind, Except.bind] at h
          cases h
          obtain ⟨rfl, hconflict, rfl⟩ := define_eq_error_iff.mp hdefine
          exact ⟨rfl, .conflict hdecode hc hconflict⟩
        · simp only [hdecode, hc, hdefine, bind, Except.bind] at h
          cases h
  · rintro ⟨rfl, hfault⟩
    cases hfault with
    | undecodable hdecode => simp [importClass, ClassDefinition.ofBytes, hdecode, bind, Except.bind]
    | untyped hdecode hc =>
      simp [importClass, ClassDefinition.ofBytes, hdecode, hc, bind, Except.bind]
    | conflict hdecode hc hconflict =>
      have hdefine := define_eq_error_iff.mpr ⟨rfl, hconflict, rfl⟩
      simp [importClass, ClassDefinition.ofBytes, hdecode, hc, hdefine, bind, Except.bind]

end Model

end ClassDeps
