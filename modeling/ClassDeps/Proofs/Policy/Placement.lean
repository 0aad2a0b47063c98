import ClassDeps.Policy.Evaluate
import ClassDeps.Proofs.Model.Coherent
import ClassDeps.Proofs.Traverse

namespace ClassDeps.Policy

variable {p : Policy} {m : Model} {placed : Std.ExtTreeMap ClassId Placement}

/-- The subjects that match a class. -/
def matching (p : Policy) (name : String) : List Subject :=
  p.subjects.filter (·.pattern.acceptsName name)

theorem mem_matching {name : String} {s : Subject} :
    s ∈ p.matching name ↔ s ∈ p.subjects ∧ s.pattern.acceptsName name := by
  rw [matching, List.mem_filter]

/-- What it takes for a class to be in a place. -/
def Places (p : Policy) (name : String) : Placement → Prop
  | .subject s => s ∈ p.matching name
  | .external => p.matching name = [] ∧ p.isExternal name
  | .undeclared => p.matching name = [] ∧ ¬p.isExternal name

/-- A class that can be placed has one place. -/
theorem places_iff_of_place {name : String} {defined : Bool} {x y : Placement}
    (h : p.place name defined = .ok x) : p.Places name y ↔ y = x := by
  rw [place] at h
  split at h
  case h_1 s hs =>
    have hmatching : p.matching name = [s] := hs
    cases h
    cases y <;> simp [Places, hmatching]
  case h_2 hs =>
    have hmatching : p.matching name = [] := hs
    split at h
    case isTrue he =>
      cases h
      cases y <;> simp [Places, hmatching, he]
    case isFalse he =>
      split at h
      case isTrue => cases h
      case isFalse =>
        cases h
        cases y <;> simp [Places, hmatching, he]
  case h_3 => cases h

/-- A class belongs to a subject exactly if no other one matches it. -/
theorem place_eq_ok_subject_iff {name : String} {defined : Bool} {s : Subject} :
    p.place name defined = .ok (.subject s) ↔ p.matching name = [s] := by
  constructor
  · intro h
    rw [place] at h
    split at h
    case h_1 x hx =>
      cases h
      exact hx
    case h_2 => split_ifs at h <;> cases h
    case h_3 => cases h
  · intro h
    have hfilter : p.subjects.filter (·.pattern.acceptsName name) = [s] := h
    rw [place, hfilter]

theorem placements_of_no_subjects (h : p.subjects = []) (m : Model) :
    p.placements m = .ok ∅ := by
  rw [placements, h]
  rfl

theorem placedEdges_empty (p : Policy) (m : Model) : p.placedEdges m ∅ = .ok [] := rfl

/-- A class that an evaluation checks. -/
def Checked (m : Model) (i : ClassId) (c : ClassNode) : Prop :=
  m.classes.get? i = some c ∧ c.defined ∧ c.isPackageInfo = false

theorem mem_checked (hm : m.Coherent) {i : ClassId} {c : ClassNode} :
    (i, c) ∈ m.definedClasses.filter (!·.2.isPackageInfo) ↔ Checked m i c := by
  simp only [Model.definedClasses, List.mem_filter, hm.classes.mem_byName, Checked,
    Bool.not_eq_true', and_assoc]

theorem checked_distinct (hm : m.Coherent) :
    (m.definedClasses.filter (!·.2.isPackageInfo)).Pairwise fun a b => a.1 ≠ b.1 := by
  have hall : m.classes.byName.Pairwise fun a b => a.1 ≠ b.1 := by
    apply hm.classes.byName_ascending.imp_of_mem
    intro a b ha hb hlt he
    have hb' := hm.classes.mem_byName.mp hb
    rw [← he, hm.classes.mem_byName.mp ha, Option.some_inj] at hb'
    rw [hb'] at hlt
    exact lt_irrefl _ hlt
  exact (hall.filter _).filter _

/-- The result of placing a checked class. -/
theorem placeEntry_eq_ok_iff {entry : ClassId × ClassNode} {i : ClassId} {x : Placement} :
    (do return (entry.1, ← p.place entry.2.name true) : Except EvaluationError _) = .ok (i, x) ↔
      entry.1 = i ∧ p.place entry.2.name true = .ok x := by
  rw [bind_eq_ok_iff]
  constructor
  · rintro ⟨y, hy, he⟩
    cases he
    exact ⟨rfl, hy⟩
  · rintro ⟨rfl, hx⟩
    exact ⟨x, hx, rfl⟩

/-- The table holds the places of the checked classes. -/
def PlacesChecked (p : Policy) (m : Model) (placed : Std.ExtTreeMap ClassId Placement) : Prop :=
  ∀ i x, placed[i]? = some x ↔ ∃ c, Checked m i c ∧ p.Places c.name x

theorem placed_distinct (hm : m.Coherent) {l : List (ClassId × Placement)}
    (hl : (m.definedClasses.filter (!·.2.isPackageInfo)).mapM (fun c =>
      (do return (c.1, ← p.place c.2.name true) : Except EvaluationError _)) = .ok l) :
    l.Pairwise fun a b => a.1 ≠ b.1 := by
  apply pairwise_of_mapM_eq_ok hl
  apply (checked_distinct hm).imp
  rintro a b hab ⟨i, x⟩ ⟨j, y⟩ hx hy
  rw [placeEntry_eq_ok_iff] at hx hy
  rw [← hx.1, ← hy.1]
  exact hab

theorem getElem?_placements (hm : m.Coherent) (hne : p.subjects ≠ [])
    (h : p.placements m = .ok placed) {i : ClassId} {x : Placement} :
    placed[i]? = some x ↔ ∃ c, Checked m i c ∧ p.place c.name true = .ok x := by
  rw [placements, bind_eq_ok_iff, if_neg (by simpa using hne)] at h
  obtain ⟨l, hl, he⟩ := h
  cases he
  rw [getElem?_ofList_iff (placed_distinct hm hl), mem_of_mapM_eq_ok hl]
  simp only [placeEntry_eq_ok_iff, Prod.exists, mem_checked hm]
  constructor
  · rintro ⟨_, c, hc, rfl, hx⟩
    exact ⟨c, hc, hx⟩
  · rintro ⟨c, hc, hx⟩
    exact ⟨i, c, hc, rfl, hx⟩

theorem exists_placements_iff (hm : m.Coherent) (hne : p.subjects ≠ []) :
    (∃ placed, p.placements m = .ok placed) ↔
      ∀ i c, Checked m i c → ∃ x, p.place c.name true = .ok x := by
  have hlist : (∃ placed, p.placements m = .ok placed) ↔
      ∃ l, (m.definedClasses.filter (!·.2.isPackageInfo)).mapM (fun c =>
        (do return (c.1, ← p.place c.2.name true) : Except EvaluationError _)) = .ok l := by
    simp only [placements, bind_eq_ok_iff, if_neg (show ¬p.subjects.isEmpty by simpa using hne)]
    constructor
    · rintro ⟨_, l, hl, -⟩
      exact ⟨l, hl⟩
    · rintro ⟨l, hl⟩
      exact ⟨_, l, hl, rfl⟩
  rw [hlist, exists_mapM_eq_ok_iff]
  simp only [Prod.forall, Prod.exists, placeEntry_eq_ok_iff, mem_checked hm]
  constructor
  · intro h i c hc
    obtain ⟨_, x, -, hx⟩ := h i c hc
    exact ⟨x, hx⟩
  · intro h i c hc
    obtain ⟨x, hx⟩ := h i c hc
    exact ⟨i, x, rfl, hx⟩

theorem placesChecked_of_placements (hm : m.Coherent) (hne : p.subjects ≠ [])
    (h : p.placements m = .ok placed) : p.PlacesChecked m placed := by
  intro i x
  rw [getElem?_placements hm hne h]
  constructor
  · rintro ⟨c, hc, hx⟩
    exact ⟨c, hc, (places_iff_of_place hx).mpr rfl⟩
  · rintro ⟨c, hc, hx⟩
    -- The class was placed somewhere, and it has no second place.
    obtain ⟨y, hy⟩ := (exists_placements_iff hm hne).mp ⟨placed, h⟩ i c hc
    rw [(places_iff_of_place hy).mp hx]
    exact ⟨c, hc, hy⟩

theorem placeTarget_eq_ok (hplaced : p.PlacesChecked m placed) {j : ClassId} {t : ClassNode}
    {r : Option Placement} (ht : m.classes.get? j = some t)
    (h : p.placeTarget placed j t = .ok r) {x : Placement} :
    r = some x ↔ t.isPackageInfo = false ∧ p.Places t.name x := by
  rw [placeTarget] at h
  split at h
  case h_1 y hy =>
    cases h
    -- The target is a checked class, so its place was looked up and not found anew.
    obtain ⟨c, hc, hplaces⟩ := (hplaced j y).mp hy
    have hct : c = t := Option.some_inj.mp (hc.1.symm.trans ht)
    rw [hct] at hc hplaces
    constructor
    · intro he
      cases he
      exact ⟨hc.2.2, hplaces⟩
    · rintro ⟨-, hx⟩
      rw [← hy]
      exact (hplaced j x).mpr ⟨t, hc, hx⟩
  case h_2 hy =>
    split at h
    case isTrue hinfo =>
      cases h
      simp [hinfo]
    case isFalse hinfo =>
      cases hplace : p.place t.name false with
      | error e =>
        rw [hplace] at h
        cases h
      | ok y =>
        rw [hplace] at h
        cases h
        rw [places_iff_of_place hplace]
        simp [hinfo, eq_comm]

/-- The placed edge of the use of a class, none for a package's information. -/
def placedEdge? (p : Policy) (m : Model) (placed : Std.ExtTreeMap ClassId Placement)
    (c : ClassNode) (source : Subject) (used : ClassId) :
    Except EvaluationError (Option PlacedEdge) := do
  match m.classes.get? used with
  | none => return none
  | some target =>
    return (← p.placeTarget placed used target).map fun place =>
      { source, target := place, edge := ⟨c.name, target.name⟩ : PlacedEdge }

theorem placedEdge?_eq_ok (hplaced : p.PlacesChecked m placed) {j : ClassId} {c t : ClassNode}
    {s : Subject} {r : Option PlacedEdge} (ht : m.classes.get? j = some t)
    (h : p.placedEdge? m placed c s j = .ok r) {e : PlacedEdge} :
    r = some e ↔ t.isPackageInfo = false ∧ p.Places t.name e.target ∧ e.source = s ∧
      e.edge = ⟨c.name, t.name⟩ := by
  simp only [placedEdge?, ht, bind_eq_ok_iff] at h
  obtain ⟨place, hplace, hr⟩ := h
  cases hr
  rw [Option.map_eq_some_iff]
  simp only [placeTarget_eq_ok hplaced ht hplace]
  constructor
  · rintro ⟨x, ⟨hinfo, hx⟩, rfl⟩
    exact ⟨hinfo, hx, rfl, rfl⟩
  · rintro ⟨hinfo, hx, rfl, he⟩
    exact ⟨e.target, ⟨hinfo, hx⟩, by rw [← he]⟩

theorem edgesFrom_cases {i : ClassId} {c : ClassNode} {s : Subject} {es : List PlacedEdge}
    (hc : m.classes.get? i = some c) (h : p.edgesFrom m placed i s = .ok es) :
    ∃ l, c.uses.toList.mapM (p.placedEdge? m placed c s) = .ok l ∧ es = l.filterMap id := by
  simp only [edgesFrom, hc] at h
  obtain ⟨l, hl, he⟩ := bind_eq_ok_iff.mp h
  cases he
  exact ⟨l, hl, rfl⟩

section

variable (hm : m.Coherent) (hplaced : p.PlacesChecked m placed)

include hm hplaced

theorem mem_edgesFrom {i : ClassId} {c : ClassNode} {s : Subject} {es : List PlacedEdge}
    (hc : m.classes.get? i = some c) (h : p.edgesFrom m placed i s = .ok es) {e : PlacedEdge} :
    e ∈ es ↔ ∃ j t, j ∈ c.uses ∧ m.classes.get? j = some t ∧ t.isPackageInfo = false ∧
      p.Places t.name e.target ∧ e.source = s ∧ e.edge = ⟨c.name, t.name⟩ := by
  obtain ⟨l, hl, rfl⟩ := edgesFrom_cases hc h
  rw [List.mem_filterMap]
  simp only [id_eq, exists_eq_right, mem_of_mapM_eq_ok hl, Std.ExtTreeSet.mem_toList]
  constructor
  · rintro ⟨j, hj, he⟩
    obtain ⟨t, ht⟩ := Arena.exists_get?_of_lt_size (hm.uses hc hj).1
    exact ⟨j, t, hj, ht, (placedEdge?_eq_ok hplaced ht he).mp rfl⟩
  · rintro ⟨j, t, hj, ht, he⟩
    obtain ⟨r, hr⟩ := exists_of_mapM_eq_ok hl (Std.ExtTreeSet.mem_toList.mpr hj)
    rw [(placedEdge?_eq_ok hplaced ht hr).mpr he] at hr
    exact ⟨j, hj, hr⟩

theorem edgesFrom_distinct {i : ClassId} {c : ClassNode} {s : Subject} {es : List PlacedEdge}
    (hc : m.classes.get? i = some c) (h : p.edgesFrom m placed i s = .ok es) :
    es.Pairwise fun a b => a.edge ≠ b.edge := by
  obtain ⟨l, hl, rfl⟩ := edgesFrom_cases hc h
  rw [List.pairwise_filterMap]
  apply pairwise_of_mapM_eq_ok hl
  apply Std.ExtTreeSet.distinct_toList.imp_of_mem
  intro j k hj hk hne x y hx hy a ha b hb he
  obtain ⟨t, ht⟩ := Arena.exists_get?_of_lt_size (hm.uses hc (Std.ExtTreeSet.mem_toList.mp hj)).1
  obtain ⟨u, hu⟩ := Arena.exists_get?_of_lt_size (hm.uses hc (Std.ExtTreeSet.mem_toList.mp hk)).1
  have hat := ((placedEdge?_eq_ok hplaced ht hx).mp ha).2.2.2
  have hbu := ((placedEdge?_eq_ok hplaced hu hy).mp hb).2.2.2
  rw [hat, hbu] at he
  have hname : t.name = u.name := congrArg ClassEdge.target he
  exact hne (Std.LawfulEqCmp.compare_eq_iff_eq.mpr (hm.classes.eq_of_nameOf_eq ht hu hname))

omit hm in
/-- Only a checked class of a subject contributes edges. -/
theorem entryEdges_cases {entry : ClassId × Placement} {es : List PlacedEdge}
    (hx : entry ∈ placed.toList)
    (h : (match entry.2 with
      | .subject source => p.edgesFrom m placed entry.1 source
      | _ => return []) = .ok es) :
    es = [] ∨ ∃ c s, Checked m entry.1 c ∧ p.Places c.name (.subject s) ∧
      p.edgesFrom m placed entry.1 s = .ok es := by
  obtain ⟨i, x⟩ := entry
  cases x with
  | subject s =>
    obtain ⟨c, hc, hplaces⟩ :=
      (hplaced i _).mp (Std.ExtTreeMap.mem_toList_iff_getElem?_eq_some.mp hx)
    exact .inr ⟨c, s, hc, hplaces, h⟩
  | external =>
    cases h
    exact .inl rfl
  | undeclared =>
    cases h
    exact .inl rfl

/-- The edges are exactly the uses out of the checked classes of a subject. -/
theorem mem_placedEdges {edges : List PlacedEdge} (h : p.placedEdges m placed = .ok edges)
    {e : PlacedEdge} :
    e ∈ edges ↔ ∃ c t, m.Uses c t ∧ c.defined ∧ c.isPackageInfo = false ∧
      t.isPackageInfo = false ∧ p.Places c.name (.subject e.source) ∧ p.Places t.name e.target ∧
      e.edge = ⟨c.name, t.name⟩ := by
  obtain ⟨l, hl, he⟩ := bind_eq_ok_iff.mp h
  cases he
  simp only [List.mem_flatten, mem_of_mapM_eq_ok hl]
  constructor
  · rintro ⟨es, ⟨entry, hx, hes⟩, he⟩
    rcases entryEdges_cases hplaced hx hes with rfl | ⟨c, s, ⟨hc, hd, hinfo⟩, hplaces, hfrom⟩
    · cases he
    · obtain ⟨j, t, hj, ht, htinfo, htarget, rfl, hedge⟩ :=
        (mem_edgesFrom hm hplaced hc hfrom).mp he
      exact ⟨c, t, ⟨_, j, hc, hj, ht⟩, hd, hinfo, htinfo, hplaces, htarget, hedge⟩
  · rintro ⟨c, t, ⟨i, j, hc, hj, ht⟩, hd, hinfo, htinfo, hplaces, htarget, hedge⟩
    have hx := Std.ExtTreeMap.mem_toList_iff_getElem?_eq_some.mpr
      ((hplaced i _).mpr ⟨c, ⟨hc, hd, hinfo⟩, hplaces⟩)
    obtain ⟨es, hes⟩ := exists_of_mapM_eq_ok hl hx
    exact ⟨es, ⟨_, hx, hes⟩, (mem_edgesFrom hm hplaced hc hes).mpr
      ⟨j, t, hj, ht, htinfo, htarget, rfl, hedge⟩⟩

/-- No class edge is met twice. -/
theorem placedEdges_distinct {edges : List PlacedEdge} (h : p.placedEdges m placed = .ok edges) :
    edges.Pairwise fun a b => a.edge ≠ b.edge := by
  obtain ⟨l, hl, he⟩ := bind_eq_ok_iff.mp h
  cases he
  rw [List.pairwise_flatten]
  constructor
  · intro es hes
    obtain ⟨entry, hx, hes⟩ := (mem_of_mapM_eq_ok hl).mp hes
    rcases entryEdges_cases hplaced hx hes with rfl | ⟨c, s, hc, -, hfrom⟩
    · exact .nil
    · exact edgesFrom_distinct hm hplaced hc.1 hfrom
  · apply pairwise_of_mapM_eq_ok hl
    apply Std.ExtTreeMap.distinct_keys_toList.imp_of_mem
    intro a b ha hb hne es es' hes hes' e he e' he' heq
    rcases entryEdges_cases hplaced ha hes with rfl | ⟨c, s, hc, -, hfrom⟩
    · cases he
    · rcases entryEdges_cases hplaced hb hes' with rfl | ⟨c', s', hc', -, hfrom'⟩
      · cases he'
      · -- Edges out of different classes have sources of different names.
        obtain ⟨_, _, -, -, -, -, -, hedge⟩ := (mem_edgesFrom hm hplaced hc.1 hfrom).mp he
        obtain ⟨_, _, -, -, -, -, -, hedge'⟩ := (mem_edgesFrom hm hplaced hc'.1 hfrom').mp he'
        rw [hedge, hedge'] at heq
        have hname : c.name = c'.name := congrArg ClassEdge.source heq
        exact hne (Std.LawfulEqCmp.compare_eq_iff_eq.mpr
          (hm.classes.eq_of_nameOf_eq hc.1 hc'.1 hname))

end

end ClassDeps.Policy
