namespace ClassDeps.Text.Utf8

/-- What the first byte of a character beyond ASCII says: its own bits, how many bytes follow, and
the bounds of the next one. -/
structure Lead where
  bits : Nat
  size : Nat
  low : UInt8
  high : UInt8

def lead? (a : UInt8) : Option Lead :=
  if 0xc2 ≤ a ∧ a ≤ 0xdf then some ⟨a.toNat % 32, 1, 0x80, 0xbf⟩
  else if a = 0xe0 then some ⟨0, 2, 0xa0, 0xbf⟩
  else if a = 0xed then some ⟨13, 2, 0x80, 0x9f⟩
  else if 0xe1 ≤ a ∧ a ≤ 0xef then some ⟨a.toNat % 16, 2, 0x80, 0xbf⟩
  else if a = 0xf0 then some ⟨0, 3, 0x90, 0xbf⟩
  else if 0xf1 ≤ a ∧ a ≤ 0xf3 then some ⟨a.toNat % 8, 3, 0x80, 0xbf⟩
  else if a = 0xf4 then some ⟨4, 3, 0x80, 0x8f⟩
  else none

/-- The bytes that continue the character. -/
def Lead.tail (lead : Lead) : List UInt8 → List UInt8
  | [] => []
  | b :: rest =>
    if lead.low ≤ b ∧ b ≤ lead.high then
      b :: (rest.take (lead.size - 1)).takeWhile fun c => 0x80 ≤ c && c ≤ 0xbf
    else []

/-- The character, if nothing of it is missing. -/
def Lead.char? (lead : Lead) (tail : List UInt8) : Option Char :=
  if tail.length = lead.size then
    some (Char.ofNat (tail.foldl (fun n b => n * 64 + b.toNat % 64) lead.bits))
  else none

/-- The characters, with `none` for each fault. -/
def scan (bytes : List UInt8) : List (Option Char) :=
  match bytes with
  | [] => []
  | a :: rest =>
    if a < 0x80 then some (Char.ofNat a.toNat) :: scan rest
    else
      match lead? a with
      | none => none :: scan rest
      | some lead =>
        let tail := lead.tail rest
        lead.char? tail :: scan (rest.drop tail.length)
termination_by bytes.length
decreasing_by all_goals simp only [List.length_drop, List.length_cons]; omega

def decode? (bytes : List UInt8) : Option (List Char) :=
  (scan bytes).mapM id

/-- The text, with a replacement character for each fault. -/
def lossy (bytes : List UInt8) : String :=
  String.ofList ((scan bytes).map (·.getD '�'))

end ClassDeps.Text.Utf8
