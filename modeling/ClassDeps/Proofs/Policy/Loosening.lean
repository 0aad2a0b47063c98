import ClassDeps.Proofs.Policy.Violation

namespace ClassDeps.Policy

/-- One change that gives classes more freedom: a permission or an external pattern is added, one
more of the subjects may use anything, or the default is to allow. -/
inductive Loosens : Access → List Declaration → Access → List Declaration → Prop
  | mayUse {default : Access} {front back : List Declaration} (source target : String) :
    Loosens default (front ++ back) default (front ++ .mayUse source target :: back)
  | external {default : Access} {front back : List Declaration} (pattern : String) :
    Loosens default (front ++ back) default (front ++ .external pattern :: back)
  | allowAll {default : Access} {front back : List Declaration} (name pattern : String) :
    Loosens default (front ++ .subject name pattern false :: back)
      default (front ++ .subject name pattern true :: back)
  | allow {declarations : List Declaration} : Loosens .deny declarations .allow declarations

/-- One change that takes freedom away: a prohibition is added. -/
inductive Tightens : Access → List Declaration → Access → List Declaration → Prop
  | mustNotUse {default : Access} {front back : List Declaration} (source target : String) :
    Tightens default (front ++ back) default (front ++ .mustNotUse source target :: back)

/-- The second policy has the same subjects and allows whatever the first one does. -/
structure Looser (default : Access) (declarations : List Declaration) (default' : Access)
    (declarations' : List Declaration) : Prop where
  default : default' = .deny → default = .deny
  subject : ∀ name text a, .subject name text a ∈ declarations →
    ∃ b, .subject name text b ∈ declarations'
  subject' : ∀ name text b, .subject name text b ∈ declarations' →
    ∃ a, .subject name text a ∈ declarations ∧ (b = false → a = false)
  mayUse : ∀ s u, .mayUse s u ∈ declarations → .mayUse s u ∈ declarations'
  mustNotUse : ∀ s u, .mustNotUse s u ∈ declarations' → .mustNotUse s u ∈ declarations
  external : ∀ text, .external text ∈ declarations → .external text ∈ declarations'

variable {default default' : Access} {declarations declarations' : List Declaration}
  {p p' : Policy} {m : Model} {e e' : Evaluation} {v : Violation}

theorem mem_middle_iff {front back : List Declaration} {d x : Declaration} :
    x ∈ front ++ d :: back ↔ x = d ∨ x ∈ front ++ back := by
  rw [List.perm_middle.mem_iff, List.mem_cons]

/-- Only permissions and external patterns are new, and only prohibitions are gone. -/
theorem looser_of_mem
    (hnew : ∀ d ∈ declarations', d ∈ declarations ∨ d.subject? = none ∧ d.mustNotUse? = none)
    (hgone : ∀ d ∈ declarations, d ∈ declarations' ∨ d.mustNotUse?.isSome) :
    Looser default declarations default declarations' where
  default := id
  subject _ _ a hd := ⟨a, (hgone _ hd).resolve_right nofun⟩
  subject' _ _ b hd := ⟨b, (hnew _ hd).resolve_right fun h => (nomatch h.1), id⟩
  mayUse _ _ hd := (hgone _ hd).resolve_right nofun
  mustNotUse _ _ hd := (hnew _ hd).resolve_right fun h => nomatch h.2
  external _ hd := (hgone _ hd).resolve_right nofun

theorem Loosens.looser (h : Loosens default declarations default' declarations') :
    Looser default declarations default' declarations' := by
  cases h with
  | mayUse source target =>
    refine looser_of_mem (fun d hd => ?_) fun d hd => .inl (mem_middle_iff.mpr (.inr hd))
    rcases mem_middle_iff.mp hd with rfl | hd
    · exact .inr ⟨rfl, rfl⟩
    · exact .inl hd
  | external pattern =>
    refine looser_of_mem (fun d hd => ?_) fun d hd => .inl (mem_middle_iff.mpr (.inr hd))
    rcases mem_middle_iff.mp hd with rfl | hd
    · exact .inr ⟨rfl, rfl⟩
    · exact .inl hd
  | allowAll name pattern =>
    refine ⟨id, fun _ _ a hd => ?_, fun _ _ b hd => ?_, by simp, by simp, by simp⟩
    · rcases mem_middle_iff.mp hd with he | hd
      · cases he
        exact ⟨true, mem_middle_iff.mpr (.inl rfl)⟩
      · exact ⟨a, mem_middle_iff.mpr (.inr hd)⟩
    · rcases mem_middle_iff.mp hd with he | hd
      · cases he
        exact ⟨false, mem_middle_iff.mpr (.inl rfl), fun _ => rfl⟩
      · exact ⟨b, mem_middle_iff.mpr (.inr hd), id⟩
  | allow => exact ⟨nofun, fun _ _ a hd => ⟨a, hd⟩, fun _ _ b hd => ⟨b, hd, id⟩, fun _ _ => id,
      fun _ _ => id, fun _ => id⟩

theorem Tightens.looser (h : Tightens default declarations default' declarations') :
    Looser default' declarations' default declarations := by
  cases h with
  | mustNotUse source target =>
    refine looser_of_mem (fun d hd => .inl (mem_middle_iff.mpr (.inr hd))) fun d hd => ?_
    rcases mem_middle_iff.mp hd with rfl | hd
    · exact .inr rfl
    · exact .inl hd

theorem Looser.matches' (h : Looser default declarations default' declarations') {s x : String}
    {b : Bool} (hs : Matches declarations' s b x) :
    ∃ a, Matches declarations s a x ∧ (b = false → a = false) := by
  obtain ⟨text, pattern, hd, hc, hx⟩ := hs
  obtain ⟨a, hd', ha⟩ := h.subject' _ _ _ hd
  exact ⟨a, ⟨text, pattern, hd', hc, hx⟩, ha⟩

theorem Looser.exists_matches (h : Looser default declarations default' declarations')
    {s x : String} {a : Bool} (hs : Matches declarations s a x) :
    ∃ b, Matches declarations' s b x := by
  obtain ⟨text, pattern, hd, hc, hx⟩ := hs
  obtain ⟨b, hd'⟩ := h.subject _ _ _ hd
  exact ⟨b, text, pattern, hd', hc, hx⟩

/-- A use against the looser policy is against the other one, though perhaps for another reason. -/
theorem Looser.exists_breach (h : Looser default declarations default' declarations')
    (hv : Breach default' declarations' v) :
    ∃ w, w.edge = v.edge ∧ Breach default declarations w := by
  cases hv with
  | forbidden hs hu hne hmust =>
    obtain ⟨a, hs', -⟩ := h.matches' hs
    obtain ⟨b, hu', -⟩ := h.matches' hu
    exact ⟨_, rfl, .forbidden hs' hu' hne (h.mustNotUse _ _ hmust)⟩
  | @notAllowed edge s u b hs hu hne hmust hmay hdeny =>
    obtain ⟨a, hs', ha⟩ := h.matches' hs
    obtain ⟨b', hu', -⟩ := h.matches' hu
    rw [ha rfl] at hs'
    by_cases hmust' : .mustNotUse s u ∈ declarations
    · exact ⟨⟨s, some u, edge, .forbidden⟩, rfl, .forbidden hs' hu' hne hmust'⟩
    · exact ⟨_, rfl, .notAllowed hs' hu' hne hmust' (mt (h.mayUse _ _) hmay) (h.default hdeny)⟩
  | undeclared hs hnone hext hdeny =>
    obtain ⟨a, hs', ha⟩ := h.matches' hs
    rw [ha rfl] at hs'
    refine ⟨_, rfl, .undeclared hs' (fun u b hu => ?_) (fun hext' => hext ?_) (h.default hdeny)⟩
    · obtain ⟨b', hu'⟩ := h.exists_matches hu
      exact hnone u b' hu'
    · obtain ⟨text, pattern, hd, hmatch⟩ := hext'
      exact ⟨text, pattern, h.external _ hd, hmatch⟩

/-- Under a policy without subjects no use is against the declarations, and none is reported. -/
theorem Reflects.mem_violations_iff (h : p.Reflects default declarations) (hm : m.Coherent)
    (he : p.evaluate m = .ok e) :
    v ∈ e.violations ↔ m.ClassUse v.edge ∧ Breach default declarations v := by
  by_cases hne : p.subjects = []
  · obtain ⟨e', he', hnil⟩ := evaluate_of_no_subjects m hne
    cases he.symm.trans he'
    rw [hnil]
    refine iff_of_false List.not_mem_nil fun ⟨_, hv⟩ => ?_
    obtain ⟨s, -, hs, -⟩ := h.breach_iff.mp hv
    exact List.ne_nil_of_mem (mem_matching.mp hs).1 hne
  · exact h.mem_violations hm hne he

theorem Looser.edges_subset (h : Looser default declarations default' declarations')
    (hp : build default declarations = .ok p) (hp' : build default' declarations' = .ok p')
    (hm : m.Coherent) (he : p.evaluate m = .ok e) (he' : p'.evaluate m = .ok e') :
    e'.violations.map (·.edge) ⊆ e.violations.map (·.edge) := by
  intro edge hedge
  obtain ⟨v, hv, rfl⟩ := List.mem_map.mp hedge
  obtain ⟨huse, hbreach⟩ := ((reflects_of_build hp').mem_violations_iff hm he').mp hv
  obtain ⟨w, hw, hbreach⟩ := h.exists_breach hbreach
  rw [← hw] at huse ⊢
  exact List.mem_map_of_mem (((reflects_of_build hp).mem_violations_iff hm he).mpr ⟨huse, hbreach⟩)

/-- If a policy is loosened in one point, the class edges that violate it are among those that did
before; if a prohibition is added to it, all that did before still do. -/
theorem violating_edges_monotone (hp : build default declarations = .ok p)
    (hp' : build default' declarations' = .ok p') (hm : m.Reachable) (he : p.evaluate m = .ok e)
    (he' : p'.evaluate m = .ok e') :
    (Loosens default declarations default' declarations' →
      e'.violations.map (·.edge) ⊆ e.violations.map (·.edge)) ∧
    (Tightens default declarations default' declarations' →
      e.violations.map (·.edge) ⊆ e'.violations.map (·.edge)) :=
  ⟨fun h => h.looser.edges_subset hp hp' hm.coherent he he',
    fun h => h.looser.edges_subset hp' hp hm.coherent he' he⟩

/-- The layers where nothing is forbidden by default. -/
def openLayersPolicy : Policy :=
  { layersPolicy with default := .allow }

/-- No layer may use the other one, and nothing else is forbidden. -/
def apartLayersPolicy : Policy :=
  match build .allow (layers ++ [.mustNotUse "high" "low"]) with
  | .ok p => p
  | .error _ => permissive

/-- Of the three violations of the layers one is left where the default is to allow. A prohibition
for the second layer keeps it and adds another one. -/
theorem violating_edges_monotone_layers :
    ∃ e e' e'', layersPolicy.evaluate layersModel = .ok e ∧
      openLayersPolicy.evaluate layersModel = .ok e' ∧
      apartLayersPolicy.evaluate layersModel = .ok e'' ∧
      e.violations.length = 3 ∧ e'.violations.length = 1 ∧ e''.violations.length = 2 ∧
      e'.violations.map (·.edge) ⊆ e.violations.map (·.edge) ∧
      e'.violations.map (·.edge) ⊆ e''.violations.map (·.edge) := by
  have hm : layersModel.Reachable := .define _ (.define _ .empty)
  have hopen : build .allow layers = .ok openLayersPolicy :=
    build_eq_ok_iff.mpr ⟨rfl, (build_eq_ok_iff.mp build_layers).2⟩
  have hapart : build .allow (layers ++ [.mustNotUse "high" "low"]) = .ok apartLayersPolicy :=
    eq_ok_of_isOk permissive (by decide)
  have hfound (p : Policy) (l : List Violation) (h : p.foundViolations layersModel = .ok l) :
      ∃ e, p.evaluate layersModel = .ok e ∧ e.violations.length = l.length := by
    obtain ⟨e, he, hviolations⟩ := evaluate_of_foundViolations h
    exact ⟨e, he, by rw [hviolations, List.length_mergeSort]⟩
  obtain ⟨e, he, hlength⟩ := hfound layersPolicy layersViolations (by decide)
  obtain ⟨e', he', hlength'⟩ := hfound openLayersPolicy
    [⟨"low", some "high", ⟨"low.A", "high.B"⟩, .forbidden⟩] (by decide)
  obtain ⟨e'', he'', hlength''⟩ := hfound apartLayersPolicy
    [⟨"low", some "high", ⟨"low.A", "high.B"⟩, .forbidden⟩,
      ⟨"high", some "low", ⟨"high.B", "low.A"⟩, .forbidden⟩] (by decide)
  exact ⟨e, e', e'', he, he', he'', hlength, hlength', hlength'',
    (violating_edges_monotone build_layers hopen hm he he').1 .allow,
    (violating_edges_monotone hopen hapart hm he' he'').2
      (@Tightens.mustNotUse .allow layers [] "high" "low")⟩

end ClassDeps.Policy
