import ClassDeps.Proofs.Scan.Coverage

namespace ClassDeps.Scan

/-- The definition in a class file, unless it is malformed. -/
def decoded (data : ByteArray) : List ClassDefinition :=
  (ClassDefinition.ofBytes data.data.toList).toOption.toList

mutual

/-- The definitions in an entry of an archive. -/
def entryClasses : EntryTree → List ClassDefinition
  | ⟨e, nested⟩ =>
    match e.content with
    | .error _ => []
    | .ok data => if Path.isArchive e.name then archiveClasses nested else decoded data

/-- The definitions in an archive. -/
def archiveClasses : Except ArchiveFault (List EntryTree) → List ClassDefinition
  | .error _ => []
  | .ok es => if (es.findSome? (·.blocked)).isSome then [] else entriesClasses es

def entriesClasses : List EntryTree → List ClassDefinition
  | [] => []
  | e :: rest =>
    if isScanned e.name then entryClasses e ++ entriesClasses rest else entriesClasses rest

end

/-- What a scan from `s` comes to if it adds these definitions. -/
structure Added (s : Scan) (ds : List ClassDefinition) (s' : Scan) : Prop where
  settled : s'.model.Settled
  classCount : s'.classCount = s.classCount + ds.length
  summary : s'.model.summary = s.model.summary ∪ Summary.join (ds.map ClassDefinition.summary)

/-- The scan from `s` adds the definitions, unless one of them conflicts with another or with the
model. -/
def Gathers (s : Scan) (ds : List ClassDefinition) (result : Except ScanError Scan) : Prop :=
  s.model.Settled →
    (s.model.summary ∪ Summary.join (ds.map ClassDefinition.summary)).Consistent →
    ∃ s', result = .ok s' ∧ Added s ds s'

variable {unpack : Unpack} {fs : FileSystem} {s s' s'' : Scan} {ds ds' : List ClassDefinition}
  {result : Except ScanError Scan}

theorem Added.trans (h : Added s ds s') (h' : Added s' ds' s'') : Added s (ds ++ ds') s'' where
  settled := h'.settled
  classCount := by rw [h'.classCount, h.classCount, List.length_append, Nat.add_assoc]
  summary := by
    rw [h'.summary, h.summary, List.map_append, Summary.join_append, Summary.union_assoc]

namespace Gathers

theorem unchanged (hmodel : s'.model = s.model) (hcount : s'.classCount = s.classCount) :
    Gathers s [] (.ok s') := by
  intro hs _
  refine ⟨s', rfl, hmodel ▸ hs, hcount, ?_⟩
  rw [hmodel]
  exact (Summary.union_empty _).symm

theorem bind {f : Scan → Except ScanError Scan} (h : Gathers s ds result)
    (h' : ∀ s', Gathers s' ds' (f s')) : Gathers s (ds ++ ds') (result >>= f) := by
  intro hs hconsistent
  rw [List.map_append, Summary.join_append, ← Summary.union_assoc] at hconsistent
  obtain ⟨s₁, rfl, hadded⟩ := h hs (Summary.consistent_union_iff.mp hconsistent).1
  rw [← hadded.summary] at hconsistent
  obtain ⟨s₂, hf, hadded'⟩ := h' s₁ hadded.settled hconsistent
  exact ⟨s₂, hf, hadded.trans hadded'⟩

theorem perm (h : Gathers s ds result) (hperm : ds.Perm ds') : Gathers s ds' result := by
  have hjoin := Summary.join_perm (hperm.map ClassDefinition.summary)
  intro hs hconsistent
  rw [← hjoin] at hconsistent
  obtain ⟨s₁, hresult, hsettled, hcount, hsummary⟩ := h hs hconsistent
  exact ⟨s₁, hresult, hsettled, hperm.length_eq ▸ hcount, hjoin ▸ hsummary⟩

theorem addArtifact {artifact : Artifact} (h : Gathers (s.addArtifact artifact) ds result) :
    Gathers s ds result := by
  intro hs hconsistent
  obtain ⟨s₁, hresult, hsettled, hcount, hsummary⟩ := h hs hconsistent
  exact ⟨s₁, hresult, hsettled, hcount, hsummary⟩

theorem foldlM {α : Type} {step : Scan → α → Except ScanError Scan} {order : List α}
    (part : α → List ClassDefinition)
    (h : ∀ a ∈ order, ∀ s, Gathers s (part a) (step s a)) :
    Gathers s (order.flatMap part) (order.foldlM step s) := by
  induction order generalizing s with
  | nil => exact unchanged rfl rfl
  | cons a order ih =>
    rw [List.flatMap_cons, List.foldlM_cons]
    refine (h a List.mem_cons_self s).bind fun s₁ => ih ?_
    exact fun b hb => h b (List.mem_cons_of_mem a hb)

/-- The order of the steps makes no difference. -/
theorem sort {α β : Type} {l : List α} (f : α → Step β) (step : β → Scan → Except ScanError Scan)
    (part : α → List ClassDefinition) (h : ∀ a ∈ l, ∀ s, Gathers s (part a) (step (f a).run s)) :
    Gathers s (l.flatMap part)
      ((Step.sort (l.map f)).foldlM (fun s x => step x.run s) s) := by
  rw [sort_map, List.foldlM_map]
  refine perm (foldlM part ?_) ((List.mergeSort_perm ..).flatMap_right part)
  exact fun a ha => h a (List.mem_mergeSort.mp ha)

end Gathers

variable {unzip : Unzip}

end ClassDeps.Scan
