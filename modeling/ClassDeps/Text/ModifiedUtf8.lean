namespace ClassDeps.Text.ModifiedUtf8

/-- A byte `10xxxxxx`, which continues a sequence. -/
def isContinuation (b : UInt8) : Bool :=
  0x80 ≤ b && b ≤ 0xbf

/-- The six bits that a continuation byte carries. -/
def payload (b : UInt8) : Nat :=
  b.toNat % 64

/-- The UTF-16 units that the bytes spell. A longer form than needed is accepted. -/
def units : List UInt8 → Option (List UInt16)
  | [] => some []
  | a :: rest =>
    if 0x01 ≤ a && a ≤ 0x7f then
      (units rest).map (a.toUInt16 :: ·)
    else if 0xc0 ≤ a && a ≤ 0xdf then
      match rest with
      | b :: rest =>
        if isContinuation b then
          (units rest).map (UInt16.ofNat (a.toNat % 32 * 64 + payload b) :: ·)
        else none
      | [] => none
    else if 0xe0 ≤ a && a ≤ 0xef then
      match rest with
      | b :: c :: rest =>
        if isContinuation b && isContinuation c then
          (units rest).map
            (UInt16.ofNat (a.toNat % 16 * 4096 + payload b * 64 + payload c) :: ·)
        else none
      | _ => none
    else none

def isHighSurrogate (u : UInt16) : Bool :=
  0xd800 ≤ u && u ≤ 0xdbff

def isLowSurrogate (u : UInt16) : Bool :=
  0xdc00 ≤ u && u ≤ 0xdfff

/-- The character of a surrogate pair. -/
def combine (high low : UInt16) : Char :=
  Char.ofNat (0x10000 + (high.toNat - 0xd800) * 0x400 + (low.toNat - 0xdc00))

/-- The characters of a UTF-16 sequence. A surrogate outside a pair is refused. -/
def characters : List UInt16 → Option (List Char)
  | [] => some []
  | u :: rest =>
    if isHighSurrogate u then
      match rest with
      | v :: rest =>
        if isLowSurrogate v then (characters rest).map (combine u v :: ·) else none
      | [] => none
    else if isLowSurrogate u then none
    else (characters rest).map (Char.ofNat u.toNat :: ·)

/-- The text that the bytes spell. Where every byte is a unit of its own, the bytes are the
characters. -/
def decode? (bytes : List UInt8) : Option String :=
  if bytes.all fun b => 0x01 ≤ b && b ≤ 0x7f then
    some (String.ofList (bytes.map fun b => Char.ofNat b.toNat))
  else do
    let cs ← characters (← units bytes)
    some (String.ofList cs)

end ClassDeps.Text.ModifiedUtf8
