import ClassDeps.Proofs.Pattern.Nested
import ClassDeps.Proofs.Traverse

namespace ClassDeps

namespace Segment

/-- The text with `filler` in the place of the wildcard. -/
def fill (filler text : List Char) : List Char :=
  text.flatMap fun c => if c = '*' then filler else [c]

/-- The text becomes `value` if its wildcard, should it have one, is replaced by some text. -/
def Fits (text value : List Char) : Prop :=
  ∃ filler, fill filler text = value

/-- A wildcard in the text is its first or its last character. -/
def AtEnd (text : List Char) : Prop :=
  '*' ∈ text → text.head? = some '*' ∨ text.getLast? = some '*'

instance : DecidablePred AtEnd :=
  fun _ => inferInstanceAs (Decidable (_ → _))

theorem fill_of_not_mem {text : List Char} (h : '*' ∉ text) (filler : List Char) :
    fill filler text = text := by
  induction text with
  | nil => rfl
  | cons c text ih =>
    obtain ⟨hc, htext⟩ := not_or.mp (mt List.mem_cons.mpr h)
    rw [fill] at ih ⊢
    rw [List.flatMap_cons, ih htext, if_neg (Ne.symm hc), List.singleton_append]

theorem fill_wildcard (filler : List Char) : fill filler ['*'] = filler := by
  simp [fill]

theorem fill_append (filler front back : List Char) :
    fill filler (front ++ back) = fill filler front ++ fill filler back :=
  List.flatMap_append

/-- What a segment says beside its wildcard. -/
def literal : Segment → List Char
  | any => []
  | exact text | startsWith text | endsWith text => text.toList

/-- A segment as it is written. -/
def written : Segment → List Char
  | any => ['*']
  | exact text => text.toList
  | startsWith head => head.toList ++ ['*']
  | endsWith tail => '*' :: tail.toList

theorem ofText?_eq_some {text : List Char} {s : Segment} (h : ofText? text = some s) :
    s.written = text ∧ '*' ∉ s.literal := by
  rw [ofText?.eq_def] at h
  split at h
  · cases h
    exact ⟨rfl, List.not_mem_nil⟩
  · split at h
    · cases h
    · rename_i hplain
      cases h
      simpa [written, literal] using hplain
  · split at h
    · rename_i hlast
      split at h
      · cases h
      · rename_i hplain
        cases h
        rw [List.contains_iff_mem] at hplain
        refine ⟨?_, by simpa [literal] using hplain⟩
        rw [written, String.toList_ofList, List.dropLast_append_getLast? _ hlast]
    · split at h
      · cases h
      · rename_i hplain
        cases h
        simpa [written, literal] using hplain

theorem ofText?_of_head? {text : List Char} (h : text.head? ≠ some '*') : ofText? text =
    if text.getLast? = some '*' then
      if text.dropLast.contains '*' then none
      else some (.startsWith (String.ofList text.dropLast))
    else if text.contains '*' then none
    else some (.exact (String.ofList text)) := by
  rw [ofText?]
  · rintro rfl
    exact h rfl
  · rintro tail rfl
    exact h rfl

theorem exists_ofText?_iff {text : List Char} (hcount : text.count '*' ≤ 1) :
    (∃ s, ofText? text = some s) ↔ AtEnd text := by
  constructor
  · rintro ⟨s, hs⟩ hmem
    obtain ⟨rfl, hplain⟩ := ofText?_eq_some hs
    cases s with
    | any => exact .inl rfl
    | exact text => exact absurd hmem hplain
    | startsWith head => exact .inr List.getLast?_concat
    | endsWith tail => exact .inl rfl
  · intro h
    by_cases hhead : text.head? = some '*'
    · obtain ⟨tail, rfl⟩ := List.head?_eq_some_iff.mp hhead
      have htail : '*' ∉ tail := by
        rw [List.count_cons_self] at hcount
        exact List.count_eq_zero.mp (by omega)
      cases tail with
      | nil => exact ⟨.any, rfl⟩
      | cons c tail => exact ⟨_, if_neg (by simpa using htail)⟩
    · rw [ofText?_of_head? hhead]
      by_cases hlast : text.getLast? = some '*'
      · obtain ⟨front, rfl⟩ := List.getLast?_eq_some_iff.mp hlast
        have hfront : '*' ∉ front := by
          rw [List.count_append, List.count_singleton_self] at hcount
          exact List.count_eq_zero.mp (by omega)
        simp [hfront]
      · have hmem : '*' ∉ text := fun hmem => (h hmem).elim hhead hlast
        simp [hlast, hmem]

/-- A compiled segment accepts what its text can become. -/
theorem accepts_iff_fits {text : List Char} {s : Segment} (h : ofText? text = some s)
    (value : String) : s.accepts value ↔ Fits text value.toList := by
  obtain ⟨rfl, hplain⟩ := ofText?_eq_some h
  cases s with
  | any => exact iff_of_true rfl ⟨value.toList, fill_wildcard _⟩
  | exact text =>
    have hfill : ∀ filler, fill filler (exact text).written = text.toList := fill_of_not_mem hplain
    simp only [accepts, decide_eq_true_eq, Fits, hfill, exists_const, String.toList_inj]
    exact eq_comm
  | startsWith head =>
    rw [literal] at hplain
    have hfill : ∀ filler, fill filler (startsWith head).written = head.toList ++ filler :=
      fun filler => by rw [written, fill_append, fill_of_not_mem hplain, fill_wildcard]
    simp only [accepts, List.isPrefixOf_iff_prefix, Fits, hfill]
    exact Iff.rfl
  | endsWith tail =>
    rw [literal] at hplain
    have hfill : ∀ filler, fill filler (endsWith tail).written = filler ++ tail.toList :=
      fun filler => by
        rw [written, ← List.singleton_append, fill_append, fill_of_not_mem hplain, fill_wildcard]
    simp only [accepts, List.isSuffixOf_iff_suffix, Fits, hfill]
    exact Iff.rfl

end Segment

namespace Pattern

/-- The text starts with a capital, if a wildcard in front of it is ignored. -/
def Capital (text : List Char) : Prop :=
  ∃ c rest, (text = c :: rest ∨ text = '*' :: c :: rest) ∧ Text.isUppercase c

/-- Neither has the text a slash in front, nor does a capital follow its last dot. -/
structure Undivided (text : List Char) : Prop where
  nonempty : text ≠ []
  slash : text.head? ≠ some '/'
  dot : ∀ front back, text = front ++ '.' :: back → '.' ∉ back → ¬Capital back

/-- How the part before the method falls into package and class. -/
inductive Located : List Char → Option (List Char) → Option (List Char) → Prop
  | nothing : Located [] none none
  | slash (type : List Char) : Located ('/' :: type) none (some type)
  | dot {package type : List Char} : (package ++ '.' :: type).head? ≠ some '/' → '.' ∉ type →
      Capital type → Located (package ++ '.' :: type) (some package) (some type)
  | type {text : List Char} : Undivided text → Capital text → Located text none (some text)
  | package {text : List Char} : Undivided text → ¬Capital text → Located text (some text) none

/-- The segments of a pattern, those that it has. -/
structure Parts where
  package : Option (List Char)
  type : Option (List Char)
  method : Option (List Char)

def Parts.segments (parts : Parts) : List (List Char) :=
  parts.package.toList ++ parts.type.toList ++ parts.method.toList

/-- The method follows the first `#`. -/
inductive Parted : List Char → Parts → Prop
  | location {text : List Char} {package type : Option (List Char)} : '#' ∉ text →
      Located text package type → Parted text ⟨package, type, none⟩
  | method {location method : List Char} {package type : Option (List Char)} : '#' ∉ location →
      Located location package type →
      Parted (location ++ '#' :: method) ⟨package, type, some method⟩

theorem capital_cons_iff {c : Char} {text : List Char} (hc : c ≠ '*') :
    Capital (c :: text) ↔ Text.isUppercase c := by
  constructor
  · rintro ⟨d, rest, heq | heq, hd⟩
    · cases heq
      exact hd
    · exact absurd (List.cons.inj heq).1 hc
  · intro h
    exact ⟨c, text, .inl rfl, h⟩

theorem capital_wildcard_iff {text : List Char} :
    Capital ('*' :: text) ↔ ∃ c rest, text = c :: rest ∧ Text.isUppercase c := by
  have hstar : ¬Text.isUppercase '*' := by decide
  constructor
  · rintro ⟨c, rest, heq | heq, hc⟩
    · cases heq
      exact absurd hc hstar
    · exact ⟨c, rest, (List.cons.inj heq).2, hc⟩
  · rintro ⟨c, rest, rfl, hc⟩
    exact ⟨c, rest, .inr rfl, hc⟩

theorem startsUppercase_iff {text : List Char} : startsUppercase text = true ↔ Capital text := by
  cases text with
  | nil => exact iff_of_false (by decide) fun ⟨_, _, heq, _⟩ => by simp at heq
  | cons c text =>
    by_cases hc : c = '*'
    · subst hc
      cases text with
      | nil => exact iff_of_false (by decide) (by simp [capital_wildcard_iff])
      | cons d rest => simp [startsUppercase, capital_wildcard_iff]
    · rw [startsUppercase, capital_cons_iff hc]
      rintro d rest rfl
      exact absurd rfl hc

theorem splitLocation_eq {text : List Char} (hne : text ≠ []) (hslash : text.head? ≠ some '/') :
    splitLocation text =
      let whole := if startsUppercase text then (none, some text) else (some text, none)
      match Text.splitLast? '.' text with
      | some (package, type) => if startsUppercase type then (some package, some type) else whole
      | none => whole := by
  rw [splitLocation.eq_def]
  split
  · exact absurd rfl hne
  · exact absurd rfl hslash
  · rfl

theorem Undivided.splitLocation_eq {text : List Char} (h : Undivided text) :
    splitLocation text =
      if startsUppercase text then (none, some text) else (some text, none) := by
  rw [Pattern.splitLocation_eq h.nonempty h.slash]
  cases hsplit : Text.splitLast? '.' text with
  | none => rfl
  | some parts =>
    obtain ⟨htext, hback⟩ := Text.splitLast?_eq_some_iff.mp hsplit
    exact if_neg fun hcapital => h.dot _ _ htext hback (startsUppercase_iff.mp hcapital)

theorem Located.splitLocation_eq {text : List Char} {package type : Option (List Char)}
    (h : Located text package type) : splitLocation text = (package, type) := by
  cases h with
  | nothing => rfl
  | slash => rfl
  | @dot package type hslash hdot hcapital =>
    rw [Pattern.splitLocation_eq (by simp) hslash, Text.splitLast?_append _ hdot]
    exact if_pos (startsUppercase_iff.mpr hcapital)
  | type hundivided hcapital =>
    rw [hundivided.splitLocation_eq, if_pos (startsUppercase_iff.mpr hcapital)]
  | package hundivided hcapital =>
    rw [hundivided.splitLocation_eq, if_neg (mt startsUppercase_iff.mp hcapital)]

theorem exists_located (text : List Char) : ∃ package type, Located text package type := by
  by_cases hne : text = []
  · subst hne
    exact ⟨_, _, .nothing⟩
  by_cases hslash : text.head? = some '/'
  · obtain ⟨rest, rfl⟩ := List.head?_eq_some_iff.mp hslash
    exact ⟨_, _, .slash rest⟩
  by_cases hdot : ∃ front back, text = front ++ '.' :: back ∧ '.' ∉ back ∧ Capital back
  · obtain ⟨front, back, rfl, hback, hcapital⟩ := hdot
    exact ⟨_, _, .dot hslash hback hcapital⟩
  · have hundivided : Undivided text :=
      ⟨hne, hslash, fun front back htext hback hcapital =>
        hdot ⟨front, back, htext, hback, hcapital⟩⟩
    by_cases hcapital : Capital text
    · exact ⟨_, _, .type hundivided hcapital⟩
    · exact ⟨_, _, .package hundivided hcapital⟩

/-- The segments as the compiler finds them. -/
def split (text : List Char) : Parts :=
  let location := splitLocation (splitMethod text).1
  ⟨location.1, location.2, (splitMethod text).2⟩

theorem Parted.split_eq {text : List Char} {parts : Parts} (h : Parted text parts) :
    split text = parts := by
  cases h with
  | location hplain hlocated =>
    rw [split, splitMethod, Text.splitFirst?_eq_none_iff.mpr hplain]
    simp only [hlocated.splitLocation_eq]
  | method hplain hlocated =>
    rw [split, splitMethod, Text.splitFirst?_append hplain]
    simp only [hlocated.splitLocation_eq]

theorem parted_split (text : List Char) : Parted text (split text) := by
  obtain ⟨parts, hparts⟩ : ∃ parts, Parted text parts := by
    cases hsplit : Text.splitFirst? '#' text with
    | none =>
      obtain ⟨package, type, hlocated⟩ := exists_located text
      exact ⟨_, .location (Text.splitFirst?_eq_none_iff.mp hsplit) hlocated⟩
    | some found =>
      obtain ⟨rfl, hplain⟩ := Text.splitFirst?_eq_some_iff.mp hsplit
      obtain ⟨package, type, hlocated⟩ := exists_located found.1
      exact ⟨_, .method hplain hlocated⟩
  rwa [hparts.split_eq]

theorem Located.sublist {text : List Char} {package type : Option (List Char)}
    (h : Located text package type) :
    ∀ segment ∈ package.toList ++ type.toList, segment.Sublist text := by
  cases h with
  | nothing => simp
  | slash type => simp
  | dot => simp
  | type => simp
  | package => simp

/-- Every segment is a piece of the text. -/
theorem Parted.sublist {text : List Char} {parts : Parts} (h : Parted text parts) :
    ∀ segment ∈ parts.segments, segment.Sublist text := by
  cases h with
  | location _ hlocated => simpa [Parts.segments] using hlocated.sublist
  | @method location method _ _ _ hlocated =>
    intro segment hsegment
    rw [Parts.segments, List.mem_append] at hsegment
    rcases hsegment with hlocation | hmethod
    · exact (hlocated.sublist segment hlocation).trans (List.sublist_append_left _ _)
    · obtain rfl : segment = method := by simpa using hmethod
      exact (List.sublist_cons_self _ _).trans (List.sublist_append_right _ _)

variable {pattern : String}

theorem segment?_eq_ok_iff (pattern : String) {part : Option (List Char)} {s : Option Segment} :
    segment? pattern part = .ok s ↔ part.map Segment.ofText? = s.map some := by
  cases part with
  | none => cases s <;> simp [segment?]
  | some text =>
    rw [segment?]
    cases hsegment : Segment.ofText? text with
    | none => cases s <;> simp [hsegment]
    | some found => cases s <;> simp [hsegment]

/-- A text is compiled segment by segment. -/
theorem compile_eq_ok_iff {p : Pattern} : compile pattern = .ok p ↔
    pattern ≠ "" ∧ pattern.toList.count '*' ≤ 1 ∧ p.text = pattern ∧
      (split pattern.toList).package.map Segment.ofText? = p.package.map some ∧
      (split pattern.toList).type.map Segment.ofText? = p.type.map some ∧
      (split pattern.toList).method.map Segment.ofText? = p.method.map some := by
  simp only [← segment?_eq_ok_iff pattern]
  rw [compile]
  by_cases hempty : pattern = ""
  · subst hempty
    simp
  have hchars : pattern.toList.isEmpty = false := by simpa using hempty
  by_cases hcount : 1 < pattern.toList.count '*'
  · simp [hchars, hcount, Nat.not_le_of_lt hcount]
  simp only [hchars, Bool.false_eq_true, if_false, if_neg hcount, bind_eq_ok_iff, split]
  constructor
  · rintro ⟨method, hmethod, package, hpackage, type, htype, heq⟩
    cases heq
    exact ⟨hempty, Nat.le_of_not_lt hcount, rfl, hpackage, htype, hmethod⟩
  · rintro ⟨-, -, rfl, hpackage, htype, hmethod⟩
    exact ⟨_, hmethod, _, hpackage, _, htype, rfl⟩

theorem exists_map_ofText?_iff {part : Option (List Char)} :
    (∃ s : Option Segment, part.map Segment.ofText? = s.map some) ↔
      ∀ segment ∈ part.toList, ∃ s, Segment.ofText? segment = some s := by
  cases part with
  | none => exact iff_of_true ⟨none, rfl⟩ (by simp)
  | some text =>
    simp only [Option.toList_some, List.forall_mem_singleton]
    constructor
    · rintro ⟨_ | s, hs⟩
      · cases hs
      · exact ⟨s, Option.some.inj hs⟩
    · rintro ⟨s, hs⟩
      exact ⟨some s, congrArg some hs⟩

/-- A text is a pattern exactly if each of its segments is one. -/
theorem exists_compile_iff : (∃ p, compile pattern = .ok p) ↔
    pattern ≠ "" ∧ pattern.toList.count '*' ≤ 1 ∧
      ∀ segment ∈ (split pattern.toList).segments, Segment.AtEnd segment := by
  have hparts : (∃ p, compile pattern = .ok p) ↔
      pattern ≠ "" ∧ pattern.toList.count '*' ≤ 1 ∧
        ∀ segment ∈ (split pattern.toList).segments, ∃ s, Segment.ofText? segment = some s := by
    simp only [compile_eq_ok_iff, Parts.segments, List.forall_mem_append, ← exists_map_ofText?_iff]
    constructor
    · rintro ⟨p, hne, hcount, -, hpackage, htype, hmethod⟩
      exact ⟨hne, hcount, ⟨⟨_, hpackage⟩, _, htype⟩, _, hmethod⟩
    · rintro ⟨hne, hcount, ⟨⟨package, hpackage⟩, type, htype⟩, method, hmethod⟩
      exact ⟨⟨pattern, package, type, method⟩, hne, hcount, rfl, hpackage, htype, hmethod⟩
  rw [hparts]
  refine and_congr_right fun _ => and_congr_right fun hcount =>
    forall₂_congr fun segment hsegment => ?_
  have hsublist := (parted_split pattern.toList).sublist segment hsegment
  exact Segment.exists_ofText?_iff ((hsublist.count_le '*').trans hcount)

end Pattern

/-- A dotted name falls into the package and the simple name that a pattern sees. -/
inductive Name.Seen : List Char → List Char → List Char → Prop
  | unnamed {name : List Char} : '.' ∉ name → Seen name [] name
  | sentinel {simple : List Char} : '.' ∉ simple →
      Seen (unnamedPackage.toList ++ '.' :: simple) [] simple
  | named {package simple : List Char} : '.' ∉ simple → package ≠ unnamedPackage.toList →
      Seen (package ++ '.' :: simple) package simple

theorem Name.exists_seen (name : List Char) : ∃ package simple, Seen name package simple := by
  cases hsplit : Text.splitLast? '.' name with
  | none => exact ⟨_, _, .unnamed (Text.splitLast?_eq_none_iff.mp hsplit)⟩
  | some parts =>
    obtain ⟨rfl, hsimple⟩ := Text.splitLast?_eq_some_iff.mp hsplit
    by_cases hpackage : parts.1 = unnamedPackage.toList
    · rw [hpackage]
      exact ⟨_, _, .sentinel hsimple⟩
    · exact ⟨_, _, .named hsimple hpackage⟩

theorem Name.Seen.eq {name : String} {package simple : List Char}
    (h : Seen name.toList package simple) :
    (Pattern.packageText (packageOf name)).toList = package ∧
      (Name.simple name).toList = simple := by
  generalize htext : name.toList = text at h
  rw [packageOf, Name.simple, htext, Pattern.packageText]
  cases h with
  | unnamed hdot =>
    rw [Text.splitLast?_eq_none hdot]
    exact ⟨rfl, htext⟩
  | sentinel hdot =>
    rw [Text.splitLast?_append _ hdot]
    simp
  | named hdot hne =>
    rw [Text.splitLast?_append _ hdot]
    have hpackage : String.ofList package ≠ unnamedPackage := fun heq =>
      hne (by rw [← heq, String.toList_ofList])
    simp [hpackage]

namespace Pattern

/-- A class whose name falls into `package` and `simple` is one that the segments stand for. A class
may be covered by its outermost one. -/
structure Parts.Covers (parts : Parts) (package simple : List Char) : Prop where
  method : parts.method = none
  package : ∀ segment, parts.package = some segment → Segment.Fits segment package
  type : ∀ segment, parts.type = some segment →
    Segment.Fits segment simple ∨ Segment.Fits segment (simple.takeWhile (· ≠ '$'))

/-- What holds of a compiled segment, if there is one, holds of its text. -/
theorem forall_map_ofText?_iff {part : Option (List Char)} {s : Option Segment}
    (h : part.map Segment.ofText? = s.map some) {P : Segment → Prop} {Q : List Char → Prop}
    (hPQ : ∀ text t, Segment.ofText? text = some t → (P t ↔ Q text)) :
    (∀ t, s = some t → P t) ↔ ∀ text, part = some text → Q text := by
  cases part with
  | none => cases s <;> simp_all
  | some text =>
    cases s with
    | none => cases h
    | some t => simpa using hPQ text t (Option.some.inj h)

theorem method_eq_none_iff_split {pattern : String} {p : Pattern} (h : compile pattern = .ok p) :
    p.method = none ↔ (split pattern.toList).method = none := by
  obtain ⟨-, -, -, -, -, hmethod⟩ := compile_eq_ok_iff.mp h
  rw [← Option.map_eq_none_iff (f := some), ← hmethod, Option.map_eq_none_iff]

theorem acceptsName_iff_covers {pattern : String} {p : Pattern} (h : compile pattern = .ok p)
    {name : String} {package simple : List Char} (hname : Name.Seen name.toList package simple) :
    p.acceptsName name ↔ (split pattern.toList).Covers package simple := by
  obtain ⟨-, -, -, hpackage, htype, -⟩ := compile_eq_ok_iff.mp h
  obtain ⟨rfl, rfl⟩ := hname.eq
  have hseen := forall_map_ofText?_iff hpackage fun text t ht =>
    Segment.accepts_iff_fits ht (packageText (Name.packageOf name))
  have hown := forall_map_ofText?_iff htype fun text t ht =>
    or_congr (Segment.accepts_iff_fits ht (Name.simple name))
      (Segment.accepts_iff_fits ht (Name.outerSimple (Name.simple name)))
  rw [acceptsName_iff, admits, Option.all_eq_true, method_eq_none_iff_split h, hseen, hown,
    Name.outerSimple, String.toList_ofList]
  constructor
  · rintro ⟨hnone, hfits, hclass⟩
    exact ⟨hnone, hfits, hclass⟩
  · rintro ⟨hnone, hfits, hclass⟩
    exact ⟨hnone, hfits, hclass⟩

/-- A text falls into segments in one way. It is a pattern exactly if it is not empty, has at most
one wildcard, and this stands at the start or the end of its segment. The pattern then accepts
exactly the classes that the segments stand for. -/
theorem compile_language (pattern : String) : ∃ parts : Parts,
    (Parted pattern.toList parts ∧ ∀ parts', Parted pattern.toList parts' → parts' = parts) ∧
    ((∃ p, compile pattern = .ok p) ↔ pattern ≠ "" ∧ pattern.toList.count '*' ≤ 1 ∧
      ∀ segment ∈ parts.segments, Segment.AtEnd segment) ∧
    ∀ p, compile pattern = .ok p → ∀ name : String, p.acceptsName name ↔
      ∃ package simple, Name.Seen name.toList package simple ∧ parts.Covers package simple := by
  refine ⟨split pattern.toList, ⟨parted_split _, fun parts' h => h.split_eq.symm⟩,
    exists_compile_iff, fun p hp name => ?_⟩
  obtain ⟨package, simple, hname⟩ := Name.exists_seen name.toList
  rw [acceptsName_iff_covers hp hname]
  constructor
  · intro h
    exact ⟨package, simple, hname, h⟩
  · rintro ⟨package', simple', hname', h⟩
    rwa [← acceptsName_iff_covers hp hname, acceptsName_iff_covers hp hname']

/-- The pattern `a*.Outer` reaches a class nested in `Outer`, and `a*b` is no pattern. -/
theorem compile_language_outer :
    (∃ p, compile "a*.Outer" = .ok p ∧ p.acceptsName "ab.c.Outer$Inner" ∧
      ¬p.acceptsName "b.Outer") ∧ ¬∃ p, compile "a*b" = .ok p := by
  constructor
  · obtain ⟨parts, ⟨-, hunique⟩, hok, haccepts⟩ := compile_language "a*.Outer"
    have hparted : Parted "a*.Outer".toList ⟨some ['a', '*'], some "Outer".toList, none⟩ :=
      .location (by decide) (@Located.dot ['a', '*'] _ (by decide) (by decide)
        ⟨'O', "uter".toList, .inl rfl, by decide⟩)
    obtain rfl := hunique _ hparted
    obtain ⟨p, hp⟩ := hok.mpr (by decide)
    refine ⟨p, hp, (haccepts p hp _).mpr ⟨"ab.c".toList, "Outer$Inner".toList, ?_, ?_⟩, ?_⟩
    · exact @Name.Seen.named "ab.c".toList _ (by decide) (by decide)
    · refine ⟨rfl, ?_, ?_⟩
      · rintro _ ⟨⟩
        exact ⟨"b.c".toList, by decide⟩
      · rintro _ ⟨⟩
        exact .inr ⟨[], by decide⟩
    · rw [haccepts p hp]
      rintro ⟨package, simple, hseen, hcovers⟩
      have hpackage : package = ['b'] := hseen.eq.1.symm.trans (by decide)
      obtain ⟨filler, hfiller⟩ := hcovers.package _ rfl
      simp [Segment.fill, hpackage] at hfiller
  · obtain ⟨parts, ⟨-, hunique⟩, hok, -⟩ := compile_language "a*b"
    have hundivided : Undivided "a*b".toList :=
      ⟨by decide, by decide, fun front back heq _ _ => by
        have hmem : '.' ∈ "a*b".toList := by simp [heq]
        exact absurd hmem (by decide)⟩
    have hparted : Parted "a*b".toList ⟨some "a*b".toList, none, none⟩ :=
      .location (by decide) (.package hundivided fun hcapital =>
        absurd ((capital_cons_iff (by decide)).mp hcapital) (by decide))
    obtain rfl := hunique _ hparted
    rw [hok]
    decide

end Pattern

end ClassDeps
