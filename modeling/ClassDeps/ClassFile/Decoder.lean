import ClassDeps.ClassFile.Malformed

namespace ClassDeps.ClassFile

/-- Takes bytes from the front of the input, or says why it cannot. -/
abbrev Decoder := StateT (List UInt8) (Except Malformed)

namespace Decoder

def u8 : Decoder UInt8
  | [] => .error (.truncated .number)
  | b :: rest => .ok (b, rest)

def u16 : Decoder UInt16 := do
  let high ← u8
  let low ← u8
  return UInt16.ofNat (high.toNat * 0x100 + low.toNat)

def u32 : Decoder UInt32 := do
  let high ← u16
  let low ← u16
  return UInt32.ofNat (high.toNat * 0x10000 + low.toNat)

def u64 : Decoder UInt64 := do
  let high ← u32
  let low ← u32
  return UInt64.ofNat (high.toNat * 0x100000000 + low.toNat)

/-- The next `n` bytes. -/
def run (n : Nat) : Decoder (List UInt8) := fun input =>
  let (front, rest) := input.splitAt n
  if front.length = n then .ok (front, rest) else .error (.truncated .run)

/-- `p` exactly `n` times. -/
def times {α : Type} (n : Nat) (p : Decoder α) : Decoder (List α) :=
  (List.replicate n ()).mapM fun _ => p

/-- A count of two bytes, then that many `p`. -/
def table {α : Type} (p : Decoder α) : Decoder (List α) := do
  times (← u16).toNat p

/-- `p` on a slice of its own. Bytes that `p` leaves there are skipped. -/
def inside {α : Type} (slice : List UInt8) (p : Decoder α) : Decoder α := fun input =>
  match p slice with
  | .ok (a, _) => .ok (a, input)
  | .error e => .error e

end Decoder

end ClassDeps.ClassFile
