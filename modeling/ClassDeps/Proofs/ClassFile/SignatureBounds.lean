import ClassDeps.Proofs.ClassFile.SignatureNames
import ClassDeps.Proofs.Text.Position

namespace ClassDeps.ClassFile.Signature.Indexed

open Text

/-- Why a reading stops early: the text is no signature, or the reader itself has gone wrong. -/
inductive Stop where
  | malformed (e : Malformed)
  /-- A part of the text would start or end inside a character. -/
  | cut (start stop : Nat)
  /-- There are more nested readers than the bound allows. -/
  | spent
deriving DecidableEq

/-- The class names found, and the position after them. -/
abbrev Read := Except Stop (List String × Nat)

/-- One reading after another. -/
def thenRead (first : Read) (next : Nat → Read) : Read := do
  let (names, pos) ← first
  let (more, pos) ← next pos
  .ok (names ++ more, pos)

/-- The characters that end the name of a class. -/
def nameEnds : List Char :=
  ['<', '.', ';']

section

variable (text : String)

def invalid : Stop :=
  .malformed (.descriptor text)

/-- The part of the text up to the first byte of one of the given characters, and the position of
that byte. -/
def readUntil (stops : List Char) (pos : Nat) : Except Stop (String × Nat) :=
  let own := ((utf8 text).drop pos).takeWhile (!(stops.map asciiByte).contains ·)
  if pos + own.length < (utf8 text).length then
    match slice? text pos (pos + own.length) with
    | some part => .ok (part, pos + own.length)
    | none => .error (.cut pos (pos + own.length))
  else .error (invalid text)

/-- One character that has to be there. -/
def expect (c : Char) (pos : Nat) : Read :=
  if nextIn text [c] pos then .ok ([], pos + 1) else .error (invalid text)

/-- A primitive type, or else a reference type. -/
def readType (reference : Nat → Read) (pos : Nat) : Read :=
  if nextIn text "BCDFIJSZ".toList pos then .ok ([], pos + 1) else reference pos

mutual

def readReference : Nat → Nat → Read
  | 0, _ => .error .spent
  | n + 1, pos =>
    if nextIn text ['L'] pos then do
      let (name, pos) ← readUntil text nameEnds (pos + 1)
      readClassType n name pos
    else if nextIn text ['T'] pos then do
      let (_, pos) ← readUntil text [';'] pos
      expect text ';' pos
    else if nextIn text ['['] pos then readType text (readReference n) (pos + 1)
    else .error (invalid text)

/-- The rest of a class type, whose name so far is `name`. -/
def readClassType : Nat → String → Nat → Read
  | 0, _, _ => .error .spent
  | n + 1, name, pos =>
    if nextIn text ['<'] pos then thenRead (readArguments n (pos + 1)) (readClassType n name)
    else if nextIn text ['.'] pos then do
      let (own, pos) ← readUntil text nameEnds (pos + 1)
      readClassType n (name ++ "$" ++ own) pos
    else if nextIn text [';'] pos then
      if name.isEmpty then .error (invalid text) else .ok ([name], pos + 1)
    else .error (invalid text)

def readArguments : Nat → Nat → Read
  | 0, _ => .error .spent
  | n + 1, pos =>
    if nextIn text ['>'] pos then .ok ([], pos + 1)
    else if nextIn text ['*'] pos then readArguments n (pos + 1)
    else if nextIn text ['+', '-'] pos then
      thenRead (readReference n (pos + 1)) (readArguments n)
    else if pos < (utf8 text).length then thenRead (readReference n pos) (readArguments n)
    else .error (invalid text)

end

mutual

/-- Type parameters: a name up to a colon, then bounds. -/
def readParameters : Nat → Nat → Read
  | 0, _ => .error .spent
  | n + 1, pos =>
    if nextIn text ['>'] pos then .ok ([], pos + 1)
    else do
      let (_, pos) ← readUntil text [':'] pos
      readBounds n pos

def readBounds : Nat → Nat → Read
  | 0, _ => .error .spent
  | n + 1, pos =>
    if nextIn text [':'] pos then
      if nextIn text ['L', 'T', '['] (pos + 1) then
        thenRead (readReference text n (pos + 1)) (readBounds n)
      else readBounds n (pos + 1)
    else readParameters n pos

end

/-- Types and the marks between them, to the end of the text. -/
def readTypes : Nat → Nat → Read
  | 0, _ => .error .spent
  | n + 1, pos =>
    if pos < (utf8 text).length then
      if nextIn text ['(', ')', '^', 'V'] pos then readTypes n (pos + 1)
      else thenRead (readType text (readReference text n) pos) (readTypes n)
    else .ok ([], pos)

def readSignature (bound : Nat) : Read :=
  if nextIn text ['<'] 0 then thenRead (readParameters text bound 1) (readTypes text bound)
  else readTypes text bound 0

/-- The class names in the whole text, by readers that are nested at most `bound` deep. -/
def run (bound : Nat) : Except Stop (List String) := do
  let (names, _) ← readSignature text bound
  .ok names

end

/-- The reading by position comes to what the readers of characters find: the same names, and a
position where the same characters are left. -/
def Agrees (text : String) (read : Read) : Found → Prop
  | none => read = .error (invalid text)
  | some (names, cs) => ∃ pos, read = .ok (names, pos) ∧ StartsAt text pos cs

variable {text : String} {pos : Nat} {c : Char} {cs : List Char}

theorem Agrees.andThen {first : Read} {found : Found} {nextRead : Nat → Read}
    {next : List Char → Found} (h : Agrees text first found)
    (hnext : ∀ names cs pos, found = some (names, cs) → StartsAt text pos cs →
      Agrees text (nextRead pos) (next cs)) :
    Agrees text (thenRead first nextRead) (andThen found next) := by
  cases found with
  | none =>
    obtain rfl : first = _ := h
    rfl
  | some found =>
    obtain ⟨names, cs⟩ := found
    obtain ⟨pos, rfl, hpos⟩ := h
    have hrest := hnext names cs pos rfl hpos
    rw [andThen_some]
    cases hfound : next cs with
    | none =>
      rw [hfound] at hrest
      have hread : nextRead pos = _ := hrest
      show (nextRead pos >>= _) = _
      rw [hread]
      rfl
    | some more =>
      rw [hfound] at hrest
      obtain ⟨last, hread, hlast⟩ := hrest
      refine ⟨last, ?_, hlast⟩
      show (nextRead pos >>= _) = _
      rw [hread]
      rfl

theorem nextIn_singleton (h : StartsAt text pos (c :: cs)) {a : Char} (ha : IsAscii a) :
    nextIn text [a] pos = decide (c = a) := by
  rw [h.nextIn_cons (by simpa [AreAscii] using ha)]
  simp

theorem nextIn_eq_head? (h : StartsAt text pos cs) {a : Char} (ha : IsAscii a) :
    nextIn text [a] pos = decide (cs.head? = some a) := by
  cases cs with
  | nil =>
    rw [h.nextIn_nil]
    rfl
  | cons c cs =>
    rw [nextIn_singleton h ha]
    simp

theorem lt_length_utf8_iff (h : StartsAt text pos cs) : pos < (utf8 text).length ↔ cs ≠ [] := by
  rw [← Nat.not_le, ← List.drop_eq_nil_iff, h.drop_utf8]
  cases cs with
  | nil => simp
  | cons c cs => simp [utf8EncodeChar_eq]

/-- The text is cut where a character starts, and as a list of characters would be. -/
theorem readUntil_cases {stops : List Char} (hstops : AreAscii stops)
    {p : Char → Bool} (hp : ∀ a, p a = !stops.contains a) (h : StartsAt text pos cs) :
    cs.dropWhile p = [] ∧ readUntil text stops pos = .error (invalid text) ∨
    ∃ stop, cs.dropWhile p ≠ [] ∧
      readUntil text stops pos = .ok (String.ofList (cs.takeWhile p), stop) ∧
      StartsAt text stop (cs.dropWhile p) := by
  obtain rfl : p = (!stops.contains ·) := funext hp
  have hsplit : StartsAt text pos (cs.takeWhile (!stops.contains ·) ++
      cs.dropWhile (!stops.contains ·)) := by
    rwa [List.takeWhile_append_dropWhile]
  have hlt := lt_length_utf8_iff hsplit.append
  rw [readUntil, h.drop_utf8, takeWhile_utf8EncodeChar hstops]
  by_cases hback : cs.dropWhile (!stops.contains ·) = []
  · refine .inl ⟨hback, if_neg ?_⟩
    rwa [hlt, not_not]
  · refine .inr ⟨_, hback, ?_, hsplit.append⟩
    rw [if_pos (hlt.mpr hback), hsplit.slice?_eq]

theorem Agrees.readUntil {stops : List Char} (hstops : AreAscii stops)
    {p : Char → Bool} (hp : ∀ a, p a = !stops.contains a) (h : StartsAt text pos cs)
    {next : String × Nat → Read} {found : Found} (hnone : cs.dropWhile p = [] → found = none)
    (hsome : ∀ stop, cs.dropWhile p ≠ [] → StartsAt text stop (cs.dropWhile p) →
      Agrees text (next (String.ofList (cs.takeWhile p), stop)) found) :
    Agrees text (readUntil text stops pos >>= next) found := by
  rcases readUntil_cases hstops hp h with ⟨hback, hread⟩ | ⟨stop, hback, hread, hstop⟩
  · rw [hread, hnone hback]
    rfl
  · rw [hread]
    exact hsome stop hback hstop

theorem not_endsName (a : Char) : (!endsName a) = !nameEnds.contains a := by
  simp [endsName, nameEnds, Bool.or_assoc]

theorem ne_eq_not_contains (c a : Char) : decide (a ≠ c) = !([c].contains a) := by
  simp

theorem exists_dropWhile_ne_eq (h : cs.dropWhile (· ≠ c) ≠ []) :
    ∃ rest, cs.dropWhile (· ≠ c) = c :: rest := by
  have hhead := List.head_dropWhile_not _ h
  obtain ⟨d, rest, hback⟩ := List.exists_cons_of_ne_nil h
  simp only [hback, List.head_cons] at hhead
  obtain rfl : d = c := by simpa using hhead
  exact ⟨rest, hback⟩

theorem areAscii_nameEnds : AreAscii nameEnds := by
  decide

theorem nextIn_primitive (h : StartsAt text pos (c :: cs)) :
    nextIn text "BCDFIJSZ".toList pos = isPrimitive c :=
  h.nextIn_cons (by decide)

theorem isAscii_of_isPrimitive (h : isPrimitive c) : IsAscii c := by
  have hall : AreAscii "BCDFIJSZ".toList := by decide
  exact hall c (by simpa [isPrimitive] using h)

theorem Agrees.readType {read : Nat → Read} {n : Nat} (h : StartsAt text pos cs)
    (href : Agrees text (read pos) (referenceAt n cs)) :
    Agrees text (readType text read pos) (typeAt n cs) := by
  rw [Indexed.readType]
  cases cs with
  | nil =>
    rw [h.nextIn_nil]
    exact href
  | cons c cs =>
    rw [nextIn_primitive h, typeAt]
    split
    · rename_i hc
      exact ⟨pos + 1, rfl, h.succ (isAscii_of_isPrimitive hc)⟩
    · exact href

/-- Readers whose bounds are large enough agree on whatever is left of a text. -/
structure ReadersAgree (text : String) (k n : Nat) : Prop where
  reference : ∀ {pos cs}, StartsAt text pos cs → 2 * cs.length + 1 ≤ k → 2 * cs.length + 1 ≤ n →
    Agrees text (readReference text k pos) (referenceAt n cs)
  classType : ∀ {pos cs} name, StartsAt text pos cs → 2 * cs.length + 1 ≤ k →
    2 * cs.length + 1 ≤ n →
    Agrees text (readClassType text k (String.ofList name) pos) (classType n name cs)
  arguments : ∀ {pos cs}, StartsAt text pos cs → 2 * cs.length + 2 ≤ k → 2 * cs.length + 2 ≤ n →
    Agrees text (readArguments text k pos) (arguments n cs)

/-- A class type has nothing left to read where its name does not end. -/
theorem agrees_readName {n : Nat} {name : List Char} {next : String × Nat → Read}
    (h : StartsAt text pos cs)
    (hnext : ∀ stop, StartsAt text stop (cs.dropWhile (!endsName ·)) →
      Agrees text (next (String.ofList (cs.takeWhile (!endsName ·)), stop))
        (classType n name (cs.dropWhile (!endsName ·)))) :
    Agrees text (readUntil text nameEnds pos >>= next)
      (classType n name (cs.dropWhile (!endsName ·))) := by
  refine Agrees.readUntil areAscii_nameEnds not_endsName h ?_ fun stop _ => hnext stop
  intro hback
  rw [hback, classType_nil]

variable {k n : Nat}

theorem agrees_typeVariable (h : StartsAt text pos ('T' :: cs)) :
    Agrees text (do
      let (_, pos) ← readUntil text [';'] pos
      expect text ';' pos) (reference (n + 1) 'T' cs) := by
  -- The letter in front is passed over with the name.
  have hdrop : ('T' :: cs).dropWhile (· ≠ ';') = cs.dropWhile (· ≠ ';') := rfl
  refine Agrees.readUntil (by decide) (ne_eq_not_contains ';') h ?_ ?_
  · intro hback
    exact reference_variable_nil (hdrop ▸ hback)
  · intro stop hback hstop
    obtain ⟨rest, hback⟩ := exists_dropWhile_ne_eq hback
    rw [hback] at hstop
    rw [reference_variable_cons (hdrop ▸ hback)]
    change Agrees text (expect text ';' stop) (some ([], rest))
    rw [expect, nextIn_singleton hstop (by decide)]
    exact ⟨stop + 1, rfl, hstop.succ (by decide)⟩

theorem agrees_reference (ih : ReadersAgree text k n) (h : StartsAt text pos cs)
    (hk : 2 * cs.length ≤ k) (hn : 2 * cs.length ≤ n) :
    Agrees text (readReference text (k + 1) pos) (referenceAt (n + 1) cs) := by
  rw [readReference]
  cases cs with
  | nil =>
    simp only [h.nextIn_nil]
    rfl
  | cons c cs =>
    rw [List.length_cons] at hk hn
    simp only [nextIn_singleton h (by decide : IsAscii 'L'),
      nextIn_singleton h (by decide : IsAscii 'T'), nextIn_singleton h (by decide : IsAscii '['),
      decide_eq_true_eq]
    split
    · rename_i hc
      subst hc
      refine agrees_readName (h.succ (by decide)) fun stop hstop => ?_
      have hle := List.length_dropWhile_le (!endsName ·) cs
      exact ih.classType _ hstop (by omega) (by omega)
    split
    · rename_i hc
      subst hc
      exact agrees_typeVariable h
    split
    · rename_i hc
      subst hc
      have hnext := h.succ (by decide)
      rw [referenceAt, reference_bracket]
      exact Agrees.readType hnext (ih.reference hnext (by omega) (by omega))
    · rename_i hclass hvariable harray
      rw [referenceAt, reference_other (by simp [opensReference, hclass, hvariable, harray])]
      rfl

theorem ofList_append_own (name own : List Char) :
    String.ofList name ++ "$" ++ String.ofList own = String.ofList (name ++ '$' :: own) := by
  rw [String.append_assoc]
  simp [String.ofList_append, String.ofList_cons]

theorem agrees_classType (ih : ReadersAgree text k n) (name : List Char)
    (h : StartsAt text pos cs) (hk : 2 * cs.length ≤ k) (hn : 2 * cs.length ≤ n) :
    Agrees text (readClassType text (k + 1) (String.ofList name) pos)
      (classType (n + 1) name cs) := by
  rw [readClassType]
  cases cs with
  | nil =>
    simp only [h.nextIn_nil]
    rfl
  | cons c cs =>
    rw [List.length_cons] at hk hn
    simp only [nextIn_singleton h (by decide : IsAscii '<'),
      nextIn_singleton h (by decide : IsAscii '.'), nextIn_singleton h (by decide : IsAscii ';'),
      decide_eq_true_eq]
    split
    · rename_i hc
      subst hc
      rw [classType_arguments]
      refine Agrees.andThen (ih.arguments (h.succ (by decide)) (by omega) (by omega)) ?_
      intro names rest stop hfound hstop
      have hle := ((readersLeave n).arguments cs names rest hfound).2.length_le
      exact ih.classType name hstop (by omega) (by omega)
    split
    · rename_i hc
      subst hc
      refine agrees_readName (h.succ (by decide)) fun stop hstop => ?_
      have hle := List.length_dropWhile_le (!endsName ·) cs
      dsimp only
      rw [ofList_append_own]
      exact ih.classType _ hstop (by omega) (by omega)
    split
    · rename_i hc
      subst hc
      have hempty : (String.ofList name).isEmpty = name.isEmpty := by
        rw [Bool.eq_iff_iff]
        simp
      have hstep : classType (n + 1) name (';' :: cs) =
          if name.isEmpty then none else some ([String.ofList name], cs) := rfl
      rw [hempty, hstep]
      split
      · rfl
      · exact ⟨pos + 1, rfl, h.succ (by decide)⟩
    · rename_i hlt hdot hsemi
      rw [classType, if_neg hlt, if_neg hdot, if_neg hsemi]
      rfl

theorem agrees_arguments (ih : ReadersAgree text k n) (h : StartsAt text pos cs)
    (hk : 2 * cs.length + 1 ≤ k) (hn : 2 * cs.length + 1 ≤ n) :
    Agrees text (readArguments text (k + 1) pos) (arguments (n + 1) cs) := by
  -- A type argument is read where it stands: only the reader of the type consumes anything.
  have hargument : ∀ {pos cs}, StartsAt text pos cs → 2 * cs.length + 1 ≤ k →
      2 * cs.length + 1 ≤ n →
      Agrees text (thenRead (readReference text k pos) (readArguments text k))
        (andThen (referenceAt n cs) (arguments n)) := by
    intro pos cs h hk hn
    refine Agrees.andThen (ih.reference h hk hn) ?_
    intro names rest stop hfound hstop
    cases cs with
    | nil => cases hfound
    | cons c cs =>
      have hle := ((readersLeave n).reference c cs names rest hfound).2.length_le
      rw [List.length_cons] at hk hn
      exact ih.arguments hstop (by omega) (by omega)
  rw [readArguments]
  cases cs with
  | nil =>
    rw [if_neg (by simp [lt_length_utf8_iff h] : ¬pos < (utf8 text).length)]
    simp only [h.nextIn_nil]
    rfl
  | cons c cs =>
    have hsign : nextIn text ['+', '-'] pos = (decide (c = '+') || decide (c = '-')) := by
      rw [h.nextIn_cons (by decide)]
      simp
    rw [arguments.eq_def, hsign, if_pos ((lt_length_utf8_iff h).mpr (List.cons_ne_nil c cs))]
    simp only [nextIn_singleton h (by decide : IsAscii '>'),
      nextIn_singleton h (by decide : IsAscii '*'), decide_eq_true_eq]
    split
    · rename_i hc
      subst hc
      exact ⟨pos + 1, rfl, h.succ (by decide)⟩
    rw [List.length_cons] at hk hn
    split
    · rename_i hc
      subst hc
      exact ih.arguments (h.succ (by decide)) (by omega) (by omega)
    split
    · rename_i hc
      have hascii : IsAscii c := by
        rcases (by simpa using hc : c = '+' ∨ c = '-') with rfl | rfl <;> decide
      have hbound := hargument (h.succ hascii) (by omega) (by omega)
      cases cs with
      | nil => exact hbound
      | cons d cs => exact hbound
    · exact hargument h hk hn

/-- By induction on the bound of the readers by position. -/
theorem readersAgree (text : String) (k n : Nat) : ReadersAgree text k n := by
  induction k generalizing n with
  | zero =>
    exact ⟨fun _ hk _ => absurd hk (by omega), fun _ _ hk _ => absurd hk (by omega),
      fun _ hk _ => absurd hk (by omega)⟩
  | succ k ih =>
    cases n with
    | zero =>
      exact ⟨fun _ _ hn => absurd hn (by omega), fun _ _ _ hn => absurd hn (by omega),
        fun _ _ hn => absurd hn (by omega)⟩
    | succ n =>
      exact ⟨fun h hk hn => agrees_reference (ih n) h (by omega) (by omega),
        fun name h hk hn => agrees_classType (ih n) name h (by omega) (by omega),
        fun h hk hn => agrees_arguments (ih n) h (by omega) (by omega)⟩

/-- What `ReadersAgree` says of reference types, for type parameters. The reader of bounds hands
on to that of parameters where no colon is left, and gets back what starts with one. -/
structure ParametersAgree (text : String) (k n : Nat) : Prop where
  start : ∀ {pos cs}, StartsAt text pos cs → 3 * cs.length + 2 ≤ k → 2 * cs.length + 2 ≤ n →
    Agrees text (readParameters text k pos) (parameters n cs)
  bounds : ∀ {pos cs}, StartsAt text pos cs → 3 * cs.length + 3 ≤ k → 2 * cs.length + 2 ≤ n →
    Agrees text (readBounds text k pos) (parameters n cs)
  colon : ∀ {pos cs}, StartsAt text pos (':' :: cs) → 3 * cs.length + 4 ≤ k →
    2 * cs.length + 4 ≤ n → Agrees text (readBounds text k pos) (parameters n (':' :: cs))

theorem agrees_colon (ih : ParametersAgree text k n) (h : StartsAt text pos (':' :: cs))
    (hk : 3 * cs.length + 3 ≤ k) (hn : 2 * cs.length + 3 ≤ n) :
    Agrees text (readBounds text (k + 1) pos) (parameters (n + 1) (':' :: cs)) := by
  have hnext := h.succ (by decide)
  rw [readBounds, nextIn_singleton h (by decide), if_pos (decide_eq_true rfl)]
  cases cs with
  | nil =>
    rw [hnext.nextIn_nil]
    have hbounds := ih.bounds hnext hk (by simp at hn ⊢; omega)
    rwa [parameters_nil] at hbounds
  | cons c cs =>
    have hopens : nextIn text ['L', 'T', '['] (pos + 1) = decide (opensReference c) := by
      rw [hnext.nextIn_cons (by decide)]
      rw [Bool.eq_iff_iff, decide_eq_true_iff]
      simp [opensReference]
    rw [parameters_colon, hopens]
    simp only [decide_eq_true_eq]
    split
    · refine Agrees.andThen ((readersAgree text k n).reference hnext (by omega) (by omega)) ?_
      intro names rest stop hfound hstop
      have hle := ((readersLeave n).reference c cs names rest hfound).2.length_le
      rw [List.length_cons] at hk hn
      exact ih.bounds hstop (by omega) (by omega)
    · exact ih.bounds hnext hk (by omega)

theorem exists_parameters_eq (hclose : cs.head? ≠ some '>') (hn : 2 * cs.length + 2 ≤ n) :
    ∃ m, 2 * (cs.dropWhile (· ≠ ':')).length + 2 ≤ m ∧
      parameters n cs = parameters m (cs.dropWhile (· ≠ ':')) := by
  cases cs with
  | nil => exact ⟨n, hn, rfl⟩
  | cons c cs =>
    by_cases hcolon : c = ':'
    · subst hcolon
      exact ⟨n, hn, rfl⟩
    · obtain ⟨n, rfl⟩ := Nat.exists_eq_add_of_le' (by omega : 1 ≤ n)
      have hle := List.length_dropWhile_le (· ≠ ':') cs
      rw [List.length_cons] at hn
      rw [List.dropWhile_cons_of_pos (by simpa using hcolon)]
      exact ⟨n, by omega, parameters_skip (by simpa using hclose) hcolon n⟩

theorem agrees_parameters (ih : ∀ n, ParametersAgree text k n) (h : StartsAt text pos cs)
    (hk : 3 * cs.length + 1 ≤ k) (hn : 2 * cs.length + 2 ≤ n) :
    Agrees text (readParameters text (k + 1) pos) (parameters n cs) := by
  rw [readParameters, nextIn_eq_head? h (by decide)]
  simp only [decide_eq_true_eq]
  split
  · rename_i hclose
    obtain ⟨rest, rfl⟩ := List.head?_eq_some_iff.mp hclose
    obtain ⟨n, rfl⟩ := Nat.exists_eq_add_of_le' (by omega : 1 ≤ n)
    exact ⟨pos + 1, rfl, h.succ (by decide)⟩
  · rename_i hclose
    obtain ⟨m, hm, heq⟩ := exists_parameters_eq hclose hn
    have hle := List.length_dropWhile_le (· ≠ ':') cs
    rw [heq]
    refine Agrees.readUntil (by decide) (ne_eq_not_contains ':') h ?_ ?_
    · intro hback
      rw [hback, parameters_nil]
    · intro stop hback hstop
      obtain ⟨rest, hback⟩ := exists_dropWhile_ne_eq hback
      rw [hback] at hstop hm hle ⊢
      rw [List.length_cons] at hm hle
      exact (ih m).colon hstop (by omega) (by omega)

theorem agrees_bounds (ih : ∀ n, ParametersAgree text k n) (h : StartsAt text pos cs)
    (hk : 3 * cs.length + 2 ≤ k) (hn : 2 * cs.length + 2 ≤ n) :
    Agrees text (readBounds text (k + 1) pos) (parameters n cs) := by
  by_cases hcolon : cs.head? = some ':'
  · obtain ⟨rest, rfl⟩ := List.head?_eq_some_iff.mp hcolon
    obtain ⟨n, rfl⟩ := Nat.exists_eq_add_of_le' (by omega : 1 ≤ n)
    rw [List.length_cons] at hk hn
    exact agrees_colon (ih n) h (by omega) (by omega)
  · rw [readBounds, nextIn_eq_head? h (by decide), if_neg (by simpa using hcolon)]
    exact (ih n).start h hk hn

theorem parametersAgree (text : String) (k n : Nat) : ParametersAgree text k n := by
  induction k generalizing n with
  | zero =>
    exact ⟨fun _ hk _ => absurd hk (by omega), fun _ hk _ => absurd hk (by omega),
      fun _ hk _ => absurd hk (by omega)⟩
  | succ k ih =>
    refine ⟨fun h hk hn => agrees_parameters ih h (by omega) hn,
      fun h hk hn => agrees_bounds ih h (by omega) hn, ?_⟩
    intro pos cs h hk hn
    obtain ⟨n, rfl⟩ := Nat.exists_eq_add_of_le' (by omega : 1 ≤ n)
    exact agrees_colon (ih n) h (by omega) (by omega)

theorem agrees_types (h : StartsAt text pos cs) (hk : 2 * cs.length + 2 ≤ k)
    (hn : 2 * cs.length + 2 ≤ n) : Agrees text (readTypes text k pos) (typesAt n cs) := by
  induction k generalizing n pos cs with
  | zero => omega
  | succ k ih =>
    obtain ⟨n, rfl⟩ := Nat.exists_eq_add_of_le' (by omega : 1 ≤ n)
    rw [readTypes]
    cases cs with
    | nil =>
      rw [if_neg (by simp [lt_length_utf8_iff h])]
      exact ⟨pos, rfl, h⟩
    | cons c cs =>
      rw [if_pos ((lt_length_utf8_iff h).mpr (List.cons_ne_nil c cs)), typesAt_cons,
        h.nextIn_cons (by decide)]
      split
      · rename_i hc
        have hascii : AreAscii ['(', ')', '^', 'V'] := by decide
        rw [List.length_cons] at hk hn
        exact ih (h.succ (hascii c (by simpa using hc))) (by omega) (by omega)
      · have href := (readersAgree text k n).reference h (by omega) (by omega)
        refine Agrees.andThen (Agrees.readType h href) ?_
        intro names rest stop hfound hstop
        have hle := (leaves_typeAt (readersLeave n).reference c cs names rest hfound).2.length_le
        rw [List.length_cons] at hk hn
        exact ih hstop (by omega) (by omega)

theorem agrees_signature (text : String) {bound : Nat} (h : 3 * text.length + 2 ≤ bound) :
    Agrees text (readSignature text bound) (signatureAt (2 * text.length + 2) text.toList) := by
  have hstart := StartsAt.zero text
  rw [← String.length_toList] at h ⊢
  rw [readSignature, nextIn_eq_head? hstart (by decide)]
  by_cases hhead : text.toList.head? = some '<'
  · rw [if_pos (decide_eq_true hhead)]
    obtain ⟨cs, hcs⟩ := List.head?_eq_some_iff.mp hhead
    rw [hcs] at hstart h ⊢
    rw [List.length_cons] at h ⊢
    refine Agrees.andThen
      ((parametersAgree text _ _).start (hstart.succ (by decide)) (by omega) (by omega)) ?_
    intro names rest stop hfound hstop
    have hle := (leaves_parameters _ cs names rest hfound).2.length_le
    exact agrees_types hstop (by omega) (by omega)
  · rw [if_neg (by simpa using hhead), signatureAt_of_head? hhead]
    exact agrees_types hstart (by omega) (by omega)

/-- Whatever the text is, readers by position that may be nested three times as deep as it has
characters, and two more, never cut it inside a character and never run out: they come to what the
reader of characters says. And a name that this gives is neither empty nor holds a character that
ends a name. -/
theorem run_eq_referencedTypes (text : String) :
    (∀ bound, 3 * text.length + 2 ≤ bound →
      run text bound = (referencedTypes text).mapError .malformed) ∧
    ∀ names, referencedTypes text = .ok names → ∀ name ∈ names,
      name ≠ "" ∧ ∀ c ∈ name.toList, c ≠ '<' ∧ c ≠ '.' ∧ c ≠ ';' := by
  have hnames := classNames_eq text.toList
  rw [String.length_toList] at hnames
  refine ⟨?_, ?_⟩
  · intro bound hbound
    have hagrees := agrees_signature text hbound
    rw [run, referencedTypes, hnames]
    cases hfound : signatureAt (2 * text.length + 2) text.toList with
    | none =>
      rw [hfound] at hagrees
      rw [show _ = _ from hagrees]
      rfl
    | some found =>
      rw [hfound] at hagrees
      obtain ⟨pos, hread, -⟩ := hagrees
      rw [hread]
      rfl
  · intro names hread name hname
    obtain ⟨hne, hends⟩ := isPlain_of_referencedTypes hread hname
    refine ⟨hne, ?_⟩
    intro c hc
    simpa [endsName, and_assoc] using hends c hc

/-- Letters of two bytes, with a type variable, an array, a wildcard and a nested class. -/
def accented : String :=
  "<É::La/Ü;>(La/Ü<[TÉ;*>.Б;)V"

theorem run_eq_referencedTypes_accented :
    3 * accented.length + 2 ≤ 83 ∧ referencedTypes accented = .ok ["a/Ü", "a/Ü$Б"] ∧
      run accented 83 = .ok ["a/Ü", "a/Ü$Б"] ∧ "a/Ü$Б" ≠ "" ∧
      ∀ c ∈ "a/Ü$Б".toList, c ≠ '<' ∧ c ≠ '.' ∧ c ≠ ';' := by
  have hbound : 3 * accented.length + 2 ≤ 83 := by decide
  have hread : referencedTypes accented = .ok ["a/Ü", "a/Ü$Б"] := by decide
  obtain ⟨hrun, hplain⟩ := run_eq_referencedTypes accented
  refine ⟨hbound, hread, ?_, hplain _ hread "a/Ü$Б" (by simp)⟩
  rw [hrun 83 hbound, hread]
  rfl

end ClassDeps.ClassFile.Signature.Indexed
