import ClassDeps.Proofs.Model.Merge
import Mathlib.Data.List.Forall2

namespace ClassDeps

namespace Summary

instance : EmptyCollection Summary where
  emptyCollection := ⟨∅, ∅, ∅⟩

theorem empty_union (s : Summary) : ∅ ∪ s = s :=
  Summary.ext (Set.empty_union _) (Set.empty_union _) (Set.empty_union _)

theorem union_empty (s : Summary) : s ∪ ∅ = s :=
  Summary.ext (Set.union_empty _) (Set.union_empty _) (Set.union_empty _)

/-- No class has two definitions. -/
def Consistent (s : Summary) : Prop :=
  s.Compatible s

theorem consistent_union_iff {s t : Summary} :
    (s ∪ t).Consistent ↔ s.Consistent ∧ t.Consistent ∧ s.Compatible t := by
  simp only [Consistent, compatible_union_left, compatible_union_right]
  constructor
  · rintro ⟨⟨hs, -⟩, hst, ht⟩
    exact ⟨hs, ht, hst⟩
  · rintro ⟨hs, ht, hst⟩
    exact ⟨⟨hs, hst.symm⟩, hst, ht⟩

def join (summaries : List Summary) : Summary :=
  summaries.foldr (· ∪ ·) ∅

theorem join_append (ss ts : List Summary) : join (ss ++ ts) = join ss ∪ join ts := by
  induction ss with
  | nil => exact (empty_union _).symm
  | cons s ss ih =>
    change s ∪ join (ss ++ ts) = s ∪ join ss ∪ join ts
    rw [ih, union_assoc]

theorem join_perm {ss ts : List Summary} (h : ss.Perm ts) : join ss = join ts := by
  induction h with
  | nil => rfl
  | cons s _ ih => exact congrArg (s ∪ ·) ih
  | swap s t ss =>
    change t ∪ (s ∪ join ss) = s ∪ (t ∪ join ss)
    rw [← union_assoc, ← union_assoc, union_comm t s]
  | trans _ _ ih₁ ih₂ => exact ih₁.trans ih₂

theorem mem_definitions_join {ss : List Summary} {s : Summary} (hs : s ∈ ss)
    {d : ClassDefinition} (hd : d ∈ s.definitions) : d ∈ (join ss).definitions := by
  induction ss with
  | nil => cases hs
  | cons t ss ih =>
    rcases List.mem_cons.mp hs with rfl | hs
    · exact .inl hd
    · exact .inr (ih hs)

theorem exists_of_mem_join {ss : List Summary} {d : ClassDefinition}
    (h : d ∈ (join ss).definitions) : ∃ s ∈ ss, d ∈ s.definitions := by
  induction ss with
  | nil => cases h
  | cons s ss ih =>
    rcases h with h | h
    · exact ⟨s, List.mem_cons_self, h⟩
    · obtain ⟨t, ht, hd⟩ := ih h
      exact ⟨t, List.mem_cons_of_mem s ht, hd⟩

end Summary

namespace Model

variable {m : Model}

theorem summary_consistent (m : Model) : m.summary.Consistent := by
  intro d hd e he hn
  change m.classContent? e.name = some e.content at he
  rw [← hn, show m.classContent? d.name = some d.content from hd, Option.some_inj] at he
  exact ClassDefinition.content_injective he

/-- The step for `x` adds `part x` to every settled model that it does not conflict with. -/
structure Adds {α ε : Type} (step : Model → α → Except ε Model) (part : α → Summary) (x : α) :
    Prop where
  ok_iff : ∀ {m : Model}, m.Settled →
    ((∃ m', step m x = .ok m') ↔ m.summary.Compatible (part x))
  result : ∀ {m m' : Model}, m.Settled → step m x = .ok m' →
    m'.Settled ∧ m'.summary = m.summary ∪ part x
  consistent : (part x).Consistent

/-- A run of such steps adds all the parts. -/
theorem Settled.foldlM_adds {α ε : Type} {step : Model → α → Except ε Model}
    {part : α → Summary} (h : m.Settled) {xs : List α} (hxs : ∀ x ∈ xs, Adds step part x) :
    ((∃ m', xs.foldlM step m = .ok m') ↔
      (m.summary ∪ Summary.join (xs.map part)).Consistent) ∧
    ∀ m', xs.foldlM step m = .ok m' →
      m'.Settled ∧ m'.summary = m.summary ∪ Summary.join (xs.map part) := by
  induction xs generalizing m with
  | nil =>
    have hs : m.summary ∪ Summary.join ([].map part) = m.summary := Summary.union_empty _
    rw [hs]
    refine ⟨iff_of_true ⟨m, rfl⟩ (summary_consistent m), ?_⟩
    intro m' he
    cases he
    exact ⟨h, rfl⟩
  | cons x xs ih =>
    obtain ⟨hx, hrest⟩ := List.forall_mem_cons.mp hxs
    have hs : m.summary ∪ Summary.join ((x :: xs).map part) =
        m.summary ∪ part x ∪ Summary.join (xs.map part) := (Summary.union_assoc ..).symm
    rw [hs, List.foldlM_cons]
    cases hstep : step m x with
    | error e =>
      -- The first step conflicts with the model itself, so the rest does not matter.
      have hno : ¬m.summary.Compatible (part x) := by
        rw [← hx.ok_iff h, hstep]
        rintro ⟨m', he⟩
        cases he
      refine ⟨iff_of_false ?_ ?_, ?_⟩
      · rintro ⟨m', he⟩
        cases he
      · intro hc
        exact hno (Summary.consistent_union_iff.mp (Summary.consistent_union_iff.mp hc).1).2.2
      · intro m' he
        cases he
    | ok m₁ =>
      obtain ⟨h₁, hs₁⟩ := hx.result h hstep
      rw [← hs₁]
      exact ih h₁ hrest

/-- Imports a class file, given by its bytes and where they come from. -/
def importFile (m : Model) (file : List UInt8 × String) : Except ImportError Model :=
  match m.importClass file.1 file.2 with
  | (.ok _, m) => .ok m
  | (.error e, _) => .error e

def importAll (m : Model) (files : List (List UInt8 × String)) : Except ImportError Model :=
  files.foldlM importFile m

/-- The union with another model, unless they conflict. -/
def mergeModel (m other : Model) : Except Conflict Model :=
  match m.merge other with
  | (.ok _, m) => .ok m
  | (.error e, _) => .error e

def mergeAll (m : Model) (others : List Model) : Except Conflict Model :=
  others.foldlM mergeModel m

theorem importFile_eq_ok_iff {file : List UInt8 × String} {m' : Model} :
    m.importFile file = .ok m' ↔
      ∃ d i, ClassDefinition.ofBytes file.1 = .ok d ∧ m.define d = (.ok i, m') := by
  have himport : m.importFile file = .ok m' ↔ ∃ i, m.importClass file.1 file.2 = (.ok i, m') := by
    rw [importFile]
    rcases m.importClass file.1 file.2 with ⟨_ | i, m₁⟩
    · simp
    · simp
  rw [himport]
  simp only [importClass_eq_ok_iff]
  exact exists_comm

theorem mergeModel_eq_ok_iff {other m' : Model} :
    m.mergeModel other = .ok m' ↔ m.merge other = (.ok (), m') := by
  rw [mergeModel]
  rcases m.merge other with ⟨_ | u, m₁⟩
  · simp
  · simp

/-- The definition in a class file does not use its own class. -/
theorem proper_of_ofBytes {data : List UInt8} {d : ClassDefinition}
    (h : ClassDefinition.ofBytes data = .ok d) : d.proper = d := by
  apply ClassDefinition.proper_eq_self
  simp only [ClassDefinition.ofBytes, ClassFile.definition, bind, Except.bind, pure,
    Except.pure] at h
  split at h
  · cases h
  · split at h
    · cases h
    · cases h
      simp

/-- What a class file adds to a model. -/
def fileSummary (file : List UInt8 × String) : Summary :=
  match ClassDefinition.ofBytes file.1 with
  | .ok d => d.summary
  | .error _ => ∅

theorem consistent_summary (d : ClassDefinition) : d.summary.Consistent := by
  rintro _ rfl _ rfl -
  rfl

theorem adds_importFile {file : List UInt8 × String} {d : ClassDefinition}
    (hd : ClassDefinition.ofBytes file.1 = .ok d) : Adds importFile fileSummary file := by
  have hpart : fileSummary file = d.summary := by simp only [fileSummary, hd]
  refine ⟨?_, ?_, ?_⟩
  · intro m h
    rw [hpart]
    have hok : (∃ m', m.importFile file = .ok m') ↔ ∃ i, (m.define d).1 = .ok i := by
      constructor
      · rintro ⟨m', hm'⟩
        obtain ⟨e, i, he, hi⟩ := importFile_eq_ok_iff.mp hm'
        cases hd.symm.trans he
        exact ⟨i, congrArg Prod.fst hi⟩
      · rintro ⟨i, hi⟩
        exact ⟨_, importFile_eq_ok_iff.mpr ⟨d, i, hd, Prod.ext hi rfl⟩⟩
    rw [hok, h.define_ok_iff]
    simp only [Summary.Compatible, ClassDefinition.summary, proper_of_ofBytes hd,
      Set.mem_singleton_iff, forall_eq]
  · intro m m' h hm'
    obtain ⟨e, i, he, hi⟩ := importFile_eq_ok_iff.mp hm'
    cases hd.symm.trans he
    rw [hpart]
    exact h.define hi
  · rw [hpart]
    exact consistent_summary d

theorem adds_mergeModel {other : Model} (ho : other.Coherent) :
    Adds mergeModel summary other where
  ok_iff h := by
    simp only [mergeModel_eq_ok_iff]
    exact h.merge_ok_iff ho
  result h he := h.merge ho (mergeModel_eq_ok_iff.mp he)
  consistent := summary_consistent other

/-- Files that were imported could be read. -/
theorem exists_ofBytes_of_importAll {files : List (List UInt8 × String)} {m' : Model}
    (h : m.importAll files = .ok m') :
    ∀ file ∈ files, ∃ d, ClassDefinition.ofBytes file.1 = .ok d := by
  induction files generalizing m with
  | nil => simp
  | cons file files ih =>
    rw [importAll, List.foldlM_cons] at h
    cases hstep : m.importFile file with
    | error e =>
      rw [hstep] at h
      cases h
    | ok m₁ =>
      obtain ⟨d, i, hd, -⟩ := importFile_eq_ok_iff.mp hstep
      rw [hstep] at h
      exact List.forall_mem_cons.mpr ⟨⟨d, hd⟩, ih h⟩

theorem conflict_of_importFile_eq_error {file : List UInt8 × String} {d : ClassDefinition}
    {e : ImportError} (hd : ClassDefinition.ofBytes file.1 = .ok d)
    (h : m.importFile file = .error e) : ∃ c, e = .conflict c := by
  simp only [importFile, importClass, hd] at h
  rcases hdef : m.define d with ⟨c | i, m₁⟩
  · simp only [hdef] at h
    cases h
    exact ⟨c, rfl⟩
  · simp only [hdef] at h
    cases h

/-- Files that can be read fail to be imported only by a conflict. -/
theorem conflict_of_importAll_eq_error {files : List (List UInt8 × String)} {e : ImportError}
    (hfiles : ∀ file ∈ files, ∃ d, ClassDefinition.ofBytes file.1 = .ok d)
    (h : m.importAll files = .error e) : ∃ c, e = .conflict c := by
  induction files generalizing m with
  | nil => cases h
  | cons file files ih =>
    obtain ⟨⟨d, hd⟩, hrest⟩ := List.forall_mem_cons.mp hfiles
    rw [importAll, List.foldlM_cons] at h
    cases hstep : m.importFile file with
    | error e' =>
      rw [hstep] at h
      cases h
      exact conflict_of_importFile_eq_error hd hstep
    | ok m₁ =>
      rw [hstep] at h
      exact ih hrest h

theorem exists_ofBytes_of_groups {groups : List (List (List UInt8 × String))} {parts : List Model}
    (h : List.Forall₂ (fun group part => empty.importAll group = .ok part) groups parts) :
    ∀ file ∈ groups.flatten, ∃ d, ClassDefinition.ofBytes file.1 = .ok d := by
  induction h with
  | nil => simp
  | cons hgroup _ ih =>
    intro file hf
    rcases List.mem_append.mp hf with hf | hf
    · exact exists_ofBytes_of_importAll hgroup file hf
    · exact ih file hf

/-- The models of the groups add up to what all the files add. -/
theorem join_of_groups {groups : List (List (List UInt8 × String))} {parts : List Model}
    (h : List.Forall₂ (fun group part => empty.importAll group = .ok part) groups parts) :
    (∀ part ∈ parts, part.Settled) ∧
    Summary.join (parts.map summary) = Summary.join (groups.flatten.map fileSummary) := by
  induction h with
  | nil => simp
  | @cons group part groups parts hgroup _ ih =>
    have hadds : ∀ file ∈ group, Adds importFile fileSummary file := by
      intro file hf
      obtain ⟨d, hd⟩ := exists_ofBytes_of_importAll hgroup file hf
      exact adds_importFile hd
    obtain ⟨hpart, hs⟩ := (settled_empty.foldlM_adds hadds).2 part hgroup
    have hempty : part.summary = Summary.join (group.map fileSummary) :=
      hs.trans (by rw [summary_empty]; exact Summary.empty_union _)
    refine ⟨List.forall_mem_cons.mpr ⟨hpart, ih.1⟩, ?_⟩
    rw [List.flatten_cons, List.map_append, Summary.join_append, ← ih.2, ← hempty]
    rfl

/-- Importing groups of class files into models of their own and merging these succeeds exactly if
importing all of the files in one go does, fails only by a conflict, and gives the same content. -/
theorem mergeAll_groups {groups : List (List (List UInt8 × String))} {parts : List Model}
    (h : List.Forall₂ (fun group part => empty.importAll group = .ok part) groups parts) :
    ((∃ r, empty.mergeAll parts = .ok r) ↔ ∃ r, empty.importAll groups.flatten = .ok r) ∧
    (∀ e, empty.importAll groups.flatten = .error e → ∃ c, e = .conflict c) ∧
    ∀ r r', empty.mergeAll parts = .ok r → empty.importAll groups.flatten = .ok r' →
      r.SameContent r' := by
  have hread := exists_ofBytes_of_groups h
  obtain ⟨hparts, hjoin⟩ := join_of_groups h
  have hmerge := settled_empty.foldlM_adds fun part hp => adds_mergeModel (hparts part hp).coherent
  have himport := settled_empty.foldlM_adds fun file hf =>
    (hread file hf).elim fun d hd => adds_importFile hd
  rw [hjoin] at hmerge
  refine ⟨hmerge.1.trans himport.1.symm, ?_, ?_⟩
  · intro e he
    exact conflict_of_importAll_eq_error hread he
  · intro r r' hr hr'
    obtain ⟨sr, er⟩ := hmerge.2 r hr
    obtain ⟨sr', er'⟩ := himport.2 r' hr'
    exact sr.sameContent sr' (er.trans er'.symm)

theorem exists_importAll_eq_ok {files : List (List UInt8 × String)}
    (h : (m.importAll files).isOk) : ∃ m', m.importAll files = .ok m' := by
  cases hm : m.importAll files with
  | error e =>
    rw [hm] at h
    cases h
  | ok m' => exact ⟨m', rfl⟩

theorem mergeAll_groups_tiny :
    ∃ a b r r', empty.importAll [(tinyClass 65 66, ""), (tinyClass 66 67, "")] = .ok a ∧
      empty.importAll [(tinyClass 67 65, ""), (tinyClass 65 66, "")] = .ok b ∧
      empty.mergeAll [a, b] = .ok r ∧
      empty.importAll [(tinyClass 65 66, ""), (tinyClass 66 67, ""), (tinyClass 67 65, ""),
        (tinyClass 65 66, "")] = .ok r' ∧ r.SameContent r' := by
  obtain ⟨a, ha⟩ : ∃ a, empty.importAll [(tinyClass 65 66, ""), (tinyClass 66 67, "")] = .ok a :=
    exists_importAll_eq_ok (by decide +kernel)
  obtain ⟨b, hb⟩ : ∃ b, empty.importAll [(tinyClass 67 65, ""), (tinyClass 65 66, "")] = .ok b :=
    exists_importAll_eq_ok (by decide +kernel)
  obtain ⟨r', hr'⟩ : ∃ r', empty.importAll [(tinyClass 65 66, ""), (tinyClass 66 67, ""),
      (tinyClass 67 65, ""), (tinyClass 65 66, "")] = .ok r' :=
    exists_importAll_eq_ok (by decide +kernel)
  obtain ⟨hiff, -, hsame⟩ := mergeAll_groups (.cons ha (.cons hb .nil))
  obtain ⟨r, hr⟩ := hiff.mpr ⟨r', hr'⟩
  exact ⟨a, b, r, r', ha, hb, hr, hr', hsame r r' hr hr'⟩

end Model

end ClassDeps
