import ClassDeps.Proofs.Scan.Coverage
import Mathlib.Algebra.GroupWithZero.Nat
import Mathlib.Data.List.Perm.Basic
import Mathlib.Logic.Equiv.Defs

namespace ClassDeps

theorem Artifact.rename_rename (f g : Nat → Nat) (a : Artifact) :
    (a.rename f).rename g = a.rename (g ∘ f) := by
  rw [rename, rename, rename, Option.map_map]

theorem Artifact.rename_congr {f g : Nat → Nat} {a : Artifact}
    (h : ∀ parent, a.parent = some parent → f parent = g parent) : a.rename f = a.rename g := by
  rw [rename, rename, Option.map_congr h]

theorem Artifact.rename_id (a : Artifact) : a.rename id = a := by
  rw [rename, Option.map_id]
  rfl

theorem Artifact.map_rename_id (a? : Option Artifact) : a?.map (rename id) = a? := by
  rw [show rename id = id from funext rename_id, Option.map_id]
  rfl

theorem Artifact.map_rename_rename (f g : Nat → Nat) (a? : Option Artifact) :
    (a?.map (rename f)).map (rename g) = a?.map (rename (g ∘ f)) := by
  rw [Option.map_map]
  exact congrArg (a?.map ·) (funext (rename_rename f g))

namespace Scan

variable {xs ys zs : List Artifact}

theorem length_join : (join xs ys).length = xs.length + ys.length := by
  rw [join, List.length_append, List.length_map]

theorem nil_join (xs : List Artifact) : join [] xs = xs := by
  rw [join, List.nil_append]
  conv_rhs => rw [← List.map_id xs]
  exact List.map_congr_left fun a _ => a.rename_id

theorem join_assoc (xs ys zs : List Artifact) : join (join xs ys) zs = join xs (join ys zs) := by
  have hshift : ∀ a : Artifact, a.rename (· + (join xs ys).length) =
      (a.rename (· + ys.length)).rename (· + xs.length) := by
    intro a
    rw [Artifact.rename_rename, length_join]
    apply Artifact.rename_congr
    intro parent _
    show parent + (xs.length + ys.length) = parent + ys.length + xs.length
    omega
  unfold join at hshift ⊢
  rw [List.map_append, List.map_map, List.append_assoc, funext hshift]
  rfl

theorem getElem?_join_of_lt {i : Nat} (h : i < xs.length) : (join xs ys)[i]? = xs[i]? :=
  List.getElem?_append_left h

theorem getElem?_join_add (i : Nat) :
    (join xs ys)[i + xs.length]? = ys[i]?.map (Artifact.rename (· + xs.length)) := by
  rw [join, List.getElem?_append_right (Nat.le_add_left ..), Nat.add_sub_cancel,
    List.getElem?_map]

/-- Of the new numbers for parents only those in range count. -/
theorem ParentsInRange.map_rename (h : ParentsInRange xs) {f g : Nat → Nat}
    (hfg : ∀ parent < xs.length, f parent = g parent) (i : Nat) :
    xs[i]?.map (Artifact.rename f) = xs[i]?.map (Artifact.rename g) := by
  apply Option.map_congr
  intro a ha
  apply Artifact.rename_congr
  intro parent hp
  exact hfg parent (h a (List.mem_of_getElem? ha) parent hp)

theorem ParentsInRange.join (hx : ParentsInRange xs) (hy : ParentsInRange ys) :
    ParentsInRange (join xs ys) := by
  intro a ha parent hp
  rw [length_join]
  rcases List.mem_append.mp ha with ha | ha
  · exact Nat.lt_add_right _ (hx a ha parent hp)
  · obtain ⟨b, hb, rfl⟩ := List.mem_map.mp ha
    obtain ⟨old, hold, rfl⟩ := Option.map_eq_some_iff.mp hp
    have hlt := hy b hb old hold
    omega

/-- `ys` is `xs` in the order that `σ` gives, and parents are renamed along. -/
def RearrangedBy (σ : Equiv.Perm Nat) (xs ys : List Artifact) : Prop :=
  ∀ i, ys[σ i]? = xs[i]?.map (Artifact.rename σ)

/-- The same artifacts in some order, each under the same parent. -/
def Rearranged (xs ys : List Artifact) : Prop :=
  ∃ σ, RearrangedBy σ xs ys

theorem Rearranged.refl (xs : List Artifact) : Rearranged xs xs :=
  ⟨Equiv.refl Nat, fun _ => (Artifact.map_rename_id _).symm⟩

theorem Rearranged.trans (h : Rearranged xs ys) (h' : Rearranged ys zs) : Rearranged xs zs := by
  obtain ⟨σ, hσ⟩ := h
  obtain ⟨τ, hτ⟩ := h'
  refine ⟨σ.trans τ, fun i => ?_⟩
  rw [Equiv.trans_apply, hτ, hσ, Artifact.map_rename_rename]
  rfl

/-- `σ` on the numbers from `n` on. -/
def above (n : Nat) (σ : Equiv.Perm Nat) : Equiv.Perm Nat where
  toFun i := if i < n then i else σ (i - n) + n
  invFun i := if i < n then i else σ.symm (i - n) + n
  left_inv i := by
    by_cases h : i < n
    · simp only [if_pos h]
    · have hσ : ¬ σ (i - n) + n < n := by omega
      simp only [if_neg h, if_neg hσ, Nat.add_sub_cancel, Equiv.symm_apply_apply]
      omega
  right_inv i := by
    by_cases h : i < n
    · simp only [if_pos h]
    · have hσ : ¬ σ.symm (i - n) + n < n := by omega
      simp only [if_neg h, if_neg hσ, Nat.add_sub_cancel, Equiv.apply_symm_apply]
      omega

theorem above_of_lt {n i : Nat} (σ : Equiv.Perm Nat) (h : i < n) : above n σ i = i :=
  if_pos h

theorem above_add (n i : Nat) (σ : Equiv.Perm Nat) : above n σ (i + n) = σ i + n := by
  have hnot : ¬ i + n < n := by omega
  have happly : above n σ (i + n) = σ (i + n - n) + n := if_neg hnot
  rw [happly, Nat.add_sub_cancel]

/-- The first `n` numbers change places with the next `k`. -/
def swapBlocks (n k : Nat) : Equiv.Perm Nat where
  toFun i := if i < n then i + k else if i < n + k then i - n else i
  invFun i := if i < k then i + n else if i < n + k then i - k else i
  left_inv i := by
    simp only
    split_ifs <;> omega
  right_inv i := by
    simp only
    split_ifs <;> omega

theorem swapBlocks_of_lt {n i : Nat} (k : Nat) (h : i < n) : swapBlocks n k i = i + k :=
  if_pos h

theorem swapBlocks_add_of_lt {k i : Nat} (n : Nat) (h : i < k) : swapBlocks n k (i + n) = i := by
  have hnot : ¬ i + n < n := by omega
  have hlt : i + n < n + k := by omega
  have happly : swapBlocks n k (i + n) = i + n - n := (if_neg hnot).trans (if_pos hlt)
  rw [happly, Nat.add_sub_cancel]

theorem swapBlocks_add_add (n k i : Nat) : swapBlocks n k (i + k + n) = i + n + k := by
  have hnot : ¬ i + k + n < n := by omega
  have hnot' : ¬ i + k + n < n + k := by omega
  have happly : swapBlocks n k (i + k + n) = i + k + n := (if_neg hnot).trans (if_neg hnot')
  rw [happly]
  omega

/-- Parents in range are not touched by what happens to later artifacts. -/
theorem Rearranged.join_left (hx : ParentsInRange xs) (h : Rearranged ys zs) :
    Rearranged (join xs ys) (join xs zs) := by
  obtain ⟨σ, hσ⟩ := h
  refine ⟨above xs.length σ, fun i => ?_⟩
  by_cases hi : i < xs.length
  · rw [above_of_lt σ hi, getElem?_join_of_lt hi, getElem?_join_of_lt hi]
    have hkeep := hx.map_rename (f := above xs.length σ) (g := id)
      (fun parent hp => above_of_lt σ hp) i
    rw [hkeep, Artifact.map_rename_id]
  · obtain ⟨j, rfl⟩ : ∃ j, i = j + xs.length := ⟨i - xs.length, by omega⟩
    rw [above_add, getElem?_join_add, getElem?_join_add, hσ, Artifact.map_rename_rename,
      Artifact.map_rename_rename]
    have hcomp : (· + xs.length) ∘ σ = above xs.length σ ∘ (· + xs.length) :=
      funext fun parent => (above_add xs.length parent σ).symm
    rw [hcomp]

/-- Neighbours can change places. -/
theorem rearranged_swap (hx : ParentsInRange xs) (hy : ParentsInRange ys) (zs : List Artifact) :
    Rearranged (join xs (join ys zs)) (join ys (join xs zs)) := by
  refine ⟨swapBlocks xs.length ys.length, fun i => ?_⟩
  -- The place is in `xs`, in `ys` or in the rest, and parents are where their artifacts are.
  by_cases hi : i < xs.length
  · rw [swapBlocks_of_lt _ hi, getElem?_join_add, getElem?_join_of_lt hi, getElem?_join_of_lt hi]
    exact hx.map_rename (fun parent hp => (swapBlocks_of_lt _ hp).symm) i
  obtain ⟨j, rfl⟩ : ∃ j, i = j + xs.length := ⟨i - xs.length, by omega⟩
  by_cases hj : j < ys.length
  · rw [swapBlocks_add_of_lt _ hj, getElem?_join_of_lt hj, getElem?_join_add,
      getElem?_join_of_lt hj, Artifact.map_rename_rename]
    have hkeep := hy.map_rename (f := swapBlocks xs.length ys.length ∘ (· + xs.length)) (g := id)
      (fun parent hp => swapBlocks_add_of_lt _ hp) j
    rw [hkeep, Artifact.map_rename_id]
  · obtain ⟨k, rfl⟩ : ∃ k, j = k + ys.length := ⟨j - ys.length, by omega⟩
    rw [swapBlocks_add_add, getElem?_join_add, getElem?_join_add, getElem?_join_add,
      getElem?_join_add, Artifact.map_rename_rename, Artifact.map_rename_rename,
      Artifact.map_rename_rename]
    have hcomp : (· + ys.length) ∘ (· + xs.length) =
        (swapBlocks xs.length ys.length ∘ (· + xs.length)) ∘ (· + ys.length) :=
      funext fun parent => (swapBlocks_add_add xs.length ys.length parent).symm
    rw [hcomp]

/-- The artifacts of all parts, one part after the other. -/
def joinAll (parts : List (List Artifact)) : List Artifact :=
  parts.foldr join []

theorem parentsInRange_joinAll {parts : List (List Artifact)}
    (h : ∀ xs ∈ parts, ParentsInRange xs) : ParentsInRange (joinAll parts) := by
  induction parts with
  | nil => exact fun a ha => absurd ha List.not_mem_nil
  | cons xs parts ih =>
    obtain ⟨hx, hrest⟩ := List.forall_mem_cons.mp h
    exact hx.join (ih hrest)

theorem rearranged_joinAll {parts parts' : List (List Artifact)} (hperm : parts.Perm parts')
    (h : ∀ xs ∈ parts, ParentsInRange xs) : Rearranged (joinAll parts) (joinAll parts') := by
  induction hperm with
  | nil => exact .refl []
  | cons xs _ ih =>
    obtain ⟨hx, hrest⟩ := List.forall_mem_cons.mp h
    exact (ih hrest).join_left hx
  | swap xs ys parts =>
    obtain ⟨hy, hrest⟩ := List.forall_mem_cons.mp h
    exact rearranged_swap hy (List.forall_mem_cons.mp hrest).1 _
  | trans hfirst _ ih₁ ih₂ =>
    exact (ih₁ h).trans (ih₂ fun xs hxs => h xs (hfirst.mem_iff.mpr hxs))

variable {unzip : Unzip} {fs : FileSystem} {s s' : Scan}

theorem foldlM_append_eq_ok_iff {parts : List Scan} : parts.foldlM append s = .ok s' ↔
    s.model.mergeAll (parts.map model) = .ok s'.model ∧
      s'.artifacts = join s.artifacts (joinAll (parts.map artifacts)) ∧
      s'.classCount = s.classCount + (parts.map classCount).sum ∧
      s'.failures = s.failures ++ (parts.map failures).flatten := by
  induction parts generalizing s with
  | nil =>
    have hnil : join s.artifacts [] = s.artifacts := List.append_nil _
    constructor
    · intro h
      cases h
      exact ⟨rfl, hnil.symm, rfl, (List.append_nil _).symm⟩
    · rintro ⟨hmodel, hartifacts, hcount, hfailures⟩
      show Except.ok s = .ok ⟨s'.model, s'.artifacts, s'.classCount, s'.failures⟩
      rw [hartifacts, hcount, hfailures, ← Except.ok.inj hmodel]
      show _ = Except.ok (⟨s.model, join s.artifacts [], s.classCount, s.failures ++ []⟩ : Scan)
      rw [hnil, List.append_nil]
  | cons part parts ih =>
    rw [List.foldlM_cons, bind_eq_ok_iff]
    constructor
    · rintro ⟨s₁, hfirst, hrest⟩
      obtain ⟨hmodel, hartifacts, hcount, hfailures⟩ := append_eq_ok_iff.mp hfirst
      obtain ⟨hmodel', hartifacts', hcount', hfailures'⟩ := ih.mp hrest
      refine ⟨bind_eq_ok_iff.mpr ⟨_, hmodel, hmodel'⟩, ?_, ?_, ?_⟩
      · rw [hartifacts', hartifacts, join_assoc]
        rfl
      · rw [hcount', hcount, List.map_cons, List.sum_cons, Nat.add_assoc]
      · rw [hfailures', hfailures, List.map_cons, List.flatten_cons, List.append_assoc]
    · rintro ⟨hmodel, hartifacts, hcount, hfailures⟩
      obtain ⟨m, hfirst, hrest⟩ := bind_eq_ok_iff.mp hmodel
      -- All but the model is known beforehand.
      refine ⟨⟨m, join s.artifacts part.artifacts, s.classCount + part.classCount,
        s.failures ++ part.failures⟩, append_eq_ok_iff.mpr ⟨hfirst, rfl, rfl, rfl⟩, ih.mpr ?_⟩
      refine ⟨hrest, ?_, ?_, ?_⟩
      · rw [hartifacts, join_assoc]
        rfl
      · rw [hcount, List.map_cons, List.sum_cons, Nat.add_assoc]
      · rw [hfailures, List.map_cons, List.flatten_cons, List.append_assoc]

/-- What one input gives can be put together with others. -/
theorem input_settled {path : String} (h : (input unzip fs path).run = some (.ok s)) :
    s.model.Settled ∧ ParentsInRange s.artifacts := by
  obtain ⟨log, hrun, -⟩ := input_accounted h
  exact ⟨(hrun.gains Model.settled_empty).settled, hrun.parentsInRange nofun⟩

namespace Parts

variable {paths paths' : List String} {parts : List Scan}

/-- The same inputs in another order give the same parts in another order. -/
theorem exists_of_perm (h : Parts unzip fs paths parts) (hperm : paths.Perm paths') :
    ∃ parts', Parts unzip fs paths' parts' ∧ parts.Perm parts' := by
  obtain ⟨parts', hparts', hperm'⟩ := List.perm_comp_forall₂ hperm.symm h
  exact ⟨parts', hparts', hperm'.symm⟩

/-- Whether the parts can be put together depends on all of them at once, and so does the model. -/
theorem mergeAll (h : Parts unzip fs paths parts) :
    ((∃ m, Model.empty.mergeAll (parts.map model) = .ok m) ↔
      (Model.empty.summary ∪
        Summary.join ((parts.map model).map Model.summary)).Consistent) ∧
    ∀ m, Model.empty.mergeAll (parts.map model) = .ok m → m.Settled ∧
      m.summary = Model.empty.summary ∪ Summary.join ((parts.map model).map Model.summary) := by
  apply Model.settled_empty.foldlM_adds
  intro m hm
  obtain ⟨part, hpart, rfl⟩ := List.mem_map.mp hm
  obtain ⟨path, -, hpath⟩ := h.exists_input hpart
  exact Model.adds_mergeModel (input_settled hpath).1.coherent

theorem parentsInRange (h : Parts unzip fs paths parts) :
    ∀ xs ∈ parts.map artifacts, ParentsInRange xs := by
  intro xs hxs
  obtain ⟨part, hpart, rfl⟩ := List.mem_map.mp hxs
  obtain ⟨path, -, hpath⟩ := h.exists_input hpart
  exact (input_settled hpath).2

end Parts

theorem exists_inputs_of_perm {paths paths' : List String} (hperm : paths.Perm paths')
    (h : ∃ s, inputs unzip fs paths = some (.ok s)) :
    ∃ s, inputs unzip fs paths' = some (.ok s) := by
  obtain ⟨s, hs⟩ := h
  obtain ⟨parts, hparts, hfold⟩ := inputs_eq_ok_iff.mp hs
  obtain ⟨parts', hparts', hperm⟩ := hparts.exists_of_perm hperm
  -- Success is a property of the union of all summaries, which has no order.
  have hsummaries := Summary.join_perm ((hperm.map model).map Model.summary)
  have hmodel : ∃ m, Model.empty.mergeAll (parts.map model) = .ok m :=
    ⟨_, (foldlM_append_eq_ok_iff.mp hfold).1⟩
  rw [hparts.mergeAll.1, hsummaries, ← hparts'.mergeAll.1] at hmodel
  obtain ⟨m, hm⟩ := hmodel
  exact ⟨⟨m, _, _, _⟩, inputs_eq_ok_iff.mpr
    ⟨parts', hparts', foldlM_append_eq_ok_iff.mpr ⟨hm, rfl, rfl, rfl⟩⟩⟩

/-- Inputs in another order return together and succeed together. Their results differ in the order
of failures and artifacts only, and every artifact stays under its parent. -/
theorem inputs_perm {paths paths' : List String} (hperm : paths.Perm paths') :
    ((∃ r, inputs unzip fs paths = some r) ↔ ∃ r, inputs unzip fs paths' = some r) ∧
    ((∃ s, inputs unzip fs paths = some (.ok s)) ↔
      ∃ s, inputs unzip fs paths' = some (.ok s)) ∧
    ∀ s s', inputs unzip fs paths = some (.ok s) → inputs unzip fs paths' = some (.ok s') →
      s.model.SameContent s'.model ∧ s.classCount = s'.classCount ∧
        s.failures.Perm s'.failures ∧ ParentsInRange s.artifacts ∧
        Rearranged s.artifacts s'.artifacts := by
  refine ⟨?_, ⟨exists_inputs_of_perm hperm, exists_inputs_of_perm hperm.symm⟩, ?_⟩
  · simp only [exists_inputs_iff, hperm.mem_iff]
  intro s s' hs hs'
  obtain ⟨parts, hparts, hfold⟩ := inputs_eq_ok_iff.mp hs
  obtain ⟨parts', hparts', hperm⟩ := hparts.exists_of_perm hperm
  have hfold' : parts'.foldlM append empty = .ok s' :=
    Option.some.inj (hparts'.inputs_eq.symm.trans hs')
  obtain ⟨hmodel, hartifacts, hcount, hfailures⟩ := foldlM_append_eq_ok_iff.mp hfold
  obtain ⟨hmodel', hartifacts', hcount', hfailures'⟩ := foldlM_append_eq_ok_iff.mp hfold'
  have hrange := hparts.parentsInRange
  refine ⟨?_, ?_, ?_, ?_, ?_⟩
  · obtain ⟨hsettled, hsummary⟩ := hparts.mergeAll.2 _ hmodel
    obtain ⟨hsettled', hsummary'⟩ := hparts'.mergeAll.2 _ hmodel'
    refine hsettled.sameContent hsettled' ?_
    rw [hsummary, hsummary', Summary.join_perm ((hperm.map model).map Model.summary)]
  · rw [hcount, hcount', (hperm.map classCount).sum_nat]
  · rw [hfailures, hfailures']
    exact (hperm.map failures).flatten.append_left _
  · rw [hartifacts, empty, nil_join]
    exact parentsInRange_joinAll hrange
  · rw [hartifacts, hartifacts', empty, nil_join, nil_join]
    exact rearranged_joinAll (hperm.map artifacts) hrange

/-- A zip file with no entries. -/
def hollow : ByteArray where
  data := #[80, 75, 5, 6, 0, 0, 0, 0, 0, 0, 0, 0, 0, 0, 0, 0, 0, 0, 0, 0, 0, 0]

/-- A zip file with one entry, an empty zip file. -/
def doubleCrate : ByteArray where
  data := #[
    80, 75, 3, 4, 20, 0, 0, 0, 0, 0, 0, 0, 33, 0, 14, 197, 203, 215, 22, 0, 0, 0, 22, 0, 0, 0, 5,
    0, 0, 0,
    98, 46, 122, 105, 112] ++ hollow.data ++ #[
    80, 75, 1, 2, 20, 3, 20, 0, 0, 0, 0, 0, 0, 0, 33, 0, 14, 197, 203, 215, 22, 0, 0, 0, 22, 0, 0,
    0, 5, 0, 0, 0, 0, 0, 0, 0, 0, 0, 0, 0, 128, 1, 0, 0, 0, 0,
    98, 46, 122, 105, 112,
    80, 75, 5, 6, 0, 0, 0, 0, 1, 0, 1, 0, 51, 0, 0, 0, 57, 0, 0, 0, 0, 0]

def shelfFiles : FileSystem :=
  (FileTree.ofFiles [("a.jar", doubleCrate),
    ("B.class", ⟨(Model.tinyClass 66 65).toArray⟩)]).system "/"

theorem unzip_hollow : Zip.unzip hollow = .ok [] := rfl

/-- The double crate as a tree. -/
def doubleTree : EntryTree := ⟨⟨"b.zip", .ok (.ok hollow)⟩, .ok []⟩

theorem unzip_doubleCrate :
    Zip.unzip doubleCrate = .ok [⟨"b.zip", .ok (.ok hollow)⟩] := by
  rw [doubleCrate, hollow, List.append_toArray, List.append_toArray]
  decide +kernel

theorem mirrors_doubleCrate : Mirrors Zip.unzip doubleCrate (.ok [doubleTree]) := by
  refine .intro unzip_doubleCrate ?_
  rintro ts hts - e he - - content hcontent
  cases hts
  obtain rfl := List.mem_singleton.mp he
  cases hcontent
  exact mirrors_of_forall unzip_hollow (List.forall_mem_nil _)

theorem inputs_shelf {paths : List String} (h : paths.Perm ["a.jar", "B.class"]) :
    inputs Zip.unzip shelfFiles paths =
      some (Unpacked.inputs (fun _ => .ok [doubleTree]) shelfFiles paths) := by
  have hjar : inputArchives shelfFiles "a.jar" = [doubleCrate] := rfl
  have hclass : inputArchives shelfFiles "B.class" = [] := rfl
  have harchives : ∀ path ∈ ["a.jar", "B.class"], ∀ data ∈ inputArchives shelfFiles path,
      data = doubleCrate := by simp [hjar, hclass]
  refine inputs_eq_some fun path hpath data hdata => ?_
  rw [harchives path (h.subset hpath) data hdata]
  exact mirrors_doubleCrate

theorem inputs_perm_shelf :
    ∃ s s' : Scan, inputs Zip.unzip shelfFiles ["a.jar", "B.class"] = some (.ok s) ∧
      inputs Zip.unzip shelfFiles ["B.class", "a.jar"] = some (.ok s') ∧
      s.artifacts.map Artifact.parent = [none, some 0, none] ∧
      s.model.SameContent s'.model ∧ Rearranged s.artifacts s'.artifacts := by
  have hperm : ["a.jar", "B.class"].Perm ["B.class", "a.jar"] := by decide
  have hparents : (Unpacked.inputs (fun _ => .ok [doubleTree]) shelfFiles
      ["a.jar", "B.class"]).map (fun s => s.artifacts.map Artifact.parent) =
        .ok [none, some 0, none] := by decide +kernel
  obtain ⟨s, hs, hparents⟩ := map_eq_ok_iff.mp hparents
  have hinputs := inputs_shelf (.refl _)
  rw [hs] at hinputs
  obtain ⟨-, hok, hsame⟩ := @inputs_perm Zip.unzip shelfFiles _ _ hperm
  obtain ⟨s', hs'⟩ := hok.mp ⟨s, hinputs⟩
  obtain ⟨hcontent, -, -, -, hartifacts⟩ := hsame s s' hinputs hs'
  exact ⟨s, s', hinputs, hs', hparents, hcontent, hartifacts⟩

end Scan

end ClassDeps
