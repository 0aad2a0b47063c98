import ClassDeps.Proofs.Policy.ByName

namespace ClassDeps.Policy

variable {p : Policy} {m : Model} {placed : Std.ExtTreeMap ClassId Placement}
  {err : EvaluationError}

/-- What an evaluation can fail for. -/
inductive Fault (p : Policy) (m : Model) : EvaluationError → Prop
  | unmatched {x : String} : m.DefinesName x → Name.isPackageInfo x = false →
    p.subjects ≠ [] → p.matching x = [] → ¬p.isExternal x → Fault p m (.unmatched x)
  | ambiguous {x : String} : m.DefinesName x → Name.isPackageInfo x = false →
    2 ≤ (p.matching x).length → Fault p m (.ambiguous x ((p.matching x).map (·.name)))
  | ambiguousUse {x y : String} {s : Subject} : m.UsesName x y →
    Name.isPackageInfo x = false → Name.isPackageInfo y = false → p.matching x = [s] →
    2 ≤ (p.matching y).length → Fault p m (.ambiguous y ((p.matching y).map (·.name)))

theorem place_eq (p : Policy) (name : String) (defined : Bool) :
    p.place name defined = match p.matching name with
      | [s] => .ok (.subject s)
      | [] =>
        if p.isExternal name then .ok .external
        else if defined then .error (.unmatched name)
        else .ok .undeclared
      | many => .error (.ambiguous name (many.map (·.name))) :=
  rfl

theorem place_eq_error_iff {name : String} {defined : Bool} :
    p.place name defined = .error err ↔
      (p.matching name = [] ∧ ¬p.isExternal name ∧ defined ∧ .unmatched name = err) ∨
        (2 ≤ (p.matching name).length ∧
          .ambiguous name ((p.matching name).map (·.name)) = err) := by
  rw [place_eq]
  match p.matching name with
  | [] => cases p.isExternal name <;> cases defined <;> simp
  | [s] => simp
  | s :: u :: rest => simp

theorem length_matching_lt_two {name : String} {defined : Bool} {x : Placement}
    (h : p.place name defined = .ok x) : (p.matching name).length < 2 := by
  by_contra hlt
  have herror : p.place name defined = .error _ :=
    place_eq_error_iff.mpr (.inr ⟨not_lt.mp hlt, rfl⟩)
  rw [h] at herror
  cases herror

theorem fault_of_placements (hm : m.Coherent) (h : p.placements m = .error err) :
    p.Fault m err := by
  by_cases hne : p.subjects = []
  · rw [placements_of_no_subjects hne] at h
    cases h
  · rw [placements, if_neg (by simpa using hne)] at h
    rcases bind_eq_error_iff.mp h with h | ⟨_, -, h⟩
    · obtain ⟨⟨i, c⟩, hc, h⟩ := exists_of_mapM_eq_error h
      obtain ⟨hget, hd, hinfo⟩ := (mem_checked hm).mp hc
      have hdefines : m.DefinesName c.name := hm.definesName_iff_exists.mpr ⟨i, c, hget, hd, rfl⟩
      rcases bind_eq_error_iff.mp h with h | ⟨_, -, h⟩
      · rcases place_eq_error_iff.mp h with ⟨hnone, hexternal, -, rfl⟩ | ⟨htwo, rfl⟩
        · exact .unmatched hdefines hinfo hne hnone hexternal
        · exact .ambiguous hdefines hinfo htwo
      · cases h
    · cases h

theorem fault_of_placeTarget {j : ClassId} {t : ClassNode}
    (h : p.placeTarget placed j t = .error err) :
    t.isPackageInfo = false ∧ 2 ≤ (p.matching t.name).length ∧
      .ambiguous t.name ((p.matching t.name).map (·.name)) = err := by
  rw [placeTarget] at h
  split at h
  case h_1 => cases h
  case h_2 =>
    split at h
    case isTrue => cases h
    case isFalse hinfo =>
      cases hplace : p.place t.name false with
      | ok x =>
        rw [hplace] at h
        cases h
      | error e =>
        rw [hplace] at h
        cases h
        refine ⟨Bool.eq_false_of_not_eq_true hinfo, ?_⟩
        rcases place_eq_error_iff.mp hplace with ⟨-, -, hdefined, -⟩ | htwo
        · cases hdefined
        · exact htwo

theorem fault_of_placedEdges (hm : m.Coherent) (hne : p.subjects ≠ [])
    (hplaced : p.placements m = .ok placed) (h : p.placedEdges m placed = .error err) :
    p.Fault m err := by
  rcases bind_eq_error_iff.mp h with h | ⟨_, -, h⟩
  · obtain ⟨⟨i, place⟩, hentry, h⟩ := exists_of_mapM_eq_error h
    cases place with
    | external => cases h
    | undeclared => cases h
    | subject s =>
      have hi := Std.ExtTreeMap.mem_toList_iff_getElem?_eq_some.mp hentry
      obtain ⟨c, ⟨hc, hd, hinfo⟩, hplace⟩ := (getElem?_placements hm hne hplaced).mp hi
      simp only [edgesFrom, hc] at h
      rcases bind_eq_error_iff.mp h with h | ⟨_, -, h⟩
      · obtain ⟨j, hj, h⟩ := exists_of_mapM_eq_error h
        rw [Std.ExtTreeSet.mem_toList] at hj
        obtain ⟨t, ht⟩ := Arena.exists_get?_of_lt_size (hm.uses hc hj).1
        simp only [ht] at h
        rcases bind_eq_error_iff.mp h with h | ⟨_, -, h⟩
        · obtain ⟨htinfo, htwo, rfl⟩ := fault_of_placeTarget h
          have huses : m.UsesName c.name t.name :=
            hm.usesName_iff_exists.mpr ⟨c, t, ⟨i, j, hc, hj, ht⟩, hd, rfl, rfl⟩
          exact .ambiguousUse huses hinfo htinfo (place_eq_ok_subject_iff.mp hplace) htwo
        · cases h
      · cases h
  · cases h

theorem fault_of_evaluate (hm : m.Coherent) (h : p.evaluate m = .error err) : p.Fault m err := by
  rcases bind_eq_error_iff.mp h with h | ⟨placed, hplaced, h⟩
  · exact fault_of_placements hm h
  · rcases bind_eq_error_iff.mp h with h | ⟨_, -, h⟩
    · by_cases hne : p.subjects = []
      · rw [placements_of_no_subjects hne] at hplaced
        cases hplaced
        cases h
      · exact fault_of_placedEdges hm hne hplaced h
    · cases h

/-- Under a policy without subjects no class has to have a place. -/
theorem Fault.subjects_ne_nil (h : p.Fault m err) : p.subjects ≠ [] := by
  have hmatching : ∀ {x : String}, 2 ≤ (p.matching x).length → p.subjects ≠ [] := by
    intro x htwo hnil
    rw [matching, hnil] at htwo
    cases htwo
  cases h with
  | unmatched _ _ hne _ _ => exact hne
  | ambiguous _ _ htwo => exact hmatching htwo
  | ambiguousUse _ _ _ _ htwo => exact hmatching htwo

theorem Fault.evaluate_ne_ok (h : p.Fault m err) (hm : m.Coherent) (e : Evaluation) :
    p.evaluate m ≠ .ok e := by
  intro he
  obtain ⟨placed, edges, hplaced, hedges, -⟩ := evaluate_eq_ok_iff.mp he
  have hne := h.subjects_ne_nil
  have hsources := (exists_placements_iff_names hm hne).mp ⟨placed, hplaced⟩
  have htargets := (exists_placedEdges_iff_names hm hne hplaced).mp ⟨edges, hedges⟩
  cases h with
  | unmatched hx hinfo _ hnone hexternal =>
    obtain ⟨r, hr⟩ := hsources _ hx hinfo
    have herror := place_eq_error_iff.mpr (.inl ⟨hnone, hexternal, rfl, rfl⟩)
    rw [hr] at herror
    cases herror
  | ambiguous hx hinfo htwo =>
    obtain ⟨r, hr⟩ := hsources _ hx hinfo
    exact absurd (length_matching_lt_two hr) (not_lt.mpr htwo)
  | ambiguousUse huses hxinfo hyinfo hs htwo =>
    have hplaces : ∃ s, p.Places _ (.subject s) := ⟨_, hs ▸ List.mem_singleton_self _⟩
    obtain ⟨r, hr⟩ := htargets _ _ huses hxinfo hyinfo hplaces
    exact absurd (length_matching_lt_two hr) (not_lt.mpr htwo)

/-- An evaluation fails exactly if a defined class is matched by several subjects, or by none and by
no external pattern, or if a defined class of a subject uses a class that several subjects match.
The error names such a class. -/
theorem evaluate_fails_iff_fault (p : Policy) (hm : m.Reachable) :
    ((∃ err, p.evaluate m = .error err) ↔ ∃ err, p.Fault m err) ∧
      ∀ err, p.evaluate m = .error err → p.Fault m err := by
  have hfault : ∀ err, p.evaluate m = .error err → p.Fault m err :=
    fun _ => fault_of_evaluate hm.coherent
  refine ⟨⟨fun ⟨err, h⟩ => ⟨err, hfault err h⟩, ?_⟩, hfault⟩
  rintro ⟨err, h⟩
  cases he : p.evaluate m with
  | error err' => exact ⟨err', rfl⟩
  | ok e => exact absurd he (h.evaluate_ne_ok hm.coherent e)

/-- A class that several subjects match, or neither a subject nor an external pattern. -/
def Misplaced (p : Policy) (name : String) : Prop :=
  2 ≤ (p.matching name).length ∨ p.matching name = [] ∧ ¬p.isExternal name

instance (p : Policy) (name : String) : Decidable (p.Misplaced name) :=
  inferInstanceAs (Decidable (_ ∨ _))

/-- The patterns of the last two subjects have classes in common. -/
def crossing : List Declaration :=
  [.subject "app" "a" false, .subject "front" "x*" false, .subject "back" "*x" false]

def crossingPolicy : Policy :=
  match build .allow crossing with
  | .ok p => p
  | .error _ => permissive

/-- One class, which uses another one that is not defined. -/
def crossingModel : Model :=
  (Model.empty.define ⟨"a.A", 1, 0, none, ∅, .ofList ["x.B"]⟩).2

theorem evaluate_fails_iff_fault_crossing :
    crossingPolicy.Fault crossingModel (.ambiguous "x.B" ["front", "back"]) :=
  (evaluate_fails_iff_fault crossingPolicy (.define _ .empty)).2 _ (by decide)

/-- An evaluation can fail although every defined class has its place. -/
theorem evaluate_fails_without_misplaced :
    build .allow crossing = .ok crossingPolicy ∧ crossingModel.Reachable ∧
      crossingPolicy.evaluate crossingModel = .error (.ambiguous "x.B" ["front", "back"]) ∧
      ¬∃ x, crossingModel.DefinesName x ∧ Name.isPackageInfo x = false ∧
        crossingPolicy.Misplaced x := by
  have hm : crossingModel.Reachable := .define _ .empty
  refine ⟨eq_ok_of_isOk permissive (by decide), hm, by decide, ?_⟩
  rintro ⟨x, hx, -, hmisplaced⟩
  obtain ⟨i, c, hc, hd, rfl⟩ := hm.coherent.definesName_iff_exists.mp hx
  have hmem : (i, c) ∈ crossingModel.definedClasses :=
    List.mem_filter.mpr ⟨hm.coherent.classes.mem_byName.mpr hc, hd⟩
  have hall : ∀ entry ∈ crossingModel.definedClasses, ¬crossingPolicy.Misplaced entry.2.name := by
    decide
  exact hall (i, c) hmem hmisplaced

end ClassDeps.Policy
