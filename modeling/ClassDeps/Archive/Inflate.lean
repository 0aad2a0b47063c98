namespace ClassDeps.Inflate

inductive Stop where
  /-- The data end inside a block. -/
  | truncated
  | corrupt
deriving DecidableEq, Repr

/-- The next bit of the data, and what came out so far. -/
structure State where
  position : Nat
  output : ByteArray

abbrev Step := StateT State (Except Stop)

/-- Bits are taken from the low end of a byte on. -/
def bit (data : ByteArray) : Step Nat := do
  let s ← get
  let i := s.position / 8
  if h : i < data.size then
    set { s with position := s.position + 1 }
    return (data[i].toNat >>> (s.position % 8)) % 2
  else throw .truncated

/-- A number of `n` bits, the low ones first. -/
def bits (data : ByteArray) : Nat → Step Nat
  | 0 => return 0
  | n + 1 => do
    let low ← bit data
    return low + 2 * (← bits data n)

def emit (byte : UInt8) : Step Unit :=
  modify fun s => { s with output := s.output.push byte }

/-- A canonical code: how many symbols have codes of one bit, of two, and up to the longest, and
the symbols in the order of their codes. -/
structure Code where
  counts : List Nat
  symbols : Array Nat

/-- The symbols of each length are numbered in their order; a length of zero is no code. Even
without any code one bit is looked at. -/
def Code.ofLengths (lengths : List Nat) : Code :=
  let sizes := (List.range (lengths.foldl max 1)).map (· + 1)
  let indexed := lengths.zipIdx
  {
    counts := sizes.map fun n => lengths.count n
    symbols := (sizes.flatMap fun n => (indexed.filter (·.1 = n)).map (·.2)).toArray
  }

/-- The unused part of the code space, in units of the longest code, if the codes fit. -/
def Code.slack? (code : Code) : Option Nat :=
  code.counts.foldlM (fun left n => if 2 * left < n then none else some (2 * left - n)) 1

def Code.isEmpty (code : Code) : Bool := code.symbols.isEmpty

/-- The codes fill the code space, or there is only one, of one bit, or none. -/
def Code.isUsable (code : Code) : Bool :=
  match code.slack? with
  | none => false
  | some left => left = 0 || code.isEmpty || code.symbols.size = 1 && code.counts.head? = some 1

/-- The symbol of the next code. Codes of one length follow each other, starting from `first`, and
their symbols start at `index`. -/
def symbol (data : ByteArray) (symbols : Array Nat) : List Nat → Nat → Nat → Nat → Step Nat
  | [], _, _, _ => throw .corrupt
  | count :: counts, code, first, index => do
    let code := code + (← bit data)
    if code < first + count then
      match symbols[index + (code - first)]? with
      | some s => return s
      | none => throw .corrupt
    else symbol data symbols counts (2 * code) (2 * (first + count)) (index + count)

def Code.next (code : Code) (data : ByteArray) : Step Nat :=
  symbol data code.symbols code.counts 0 0 0

/-- For each symbol from 257 on, the least length it stands for and the bits to add to it. -/
def lengthBases : Array (Nat × Nat) := #[
  (3, 0), (4, 0), (5, 0), (6, 0), (7, 0), (8, 0), (9, 0), (10, 0), (11, 1), (13, 1), (15, 1),
  (17, 1), (19, 2), (23, 2), (27, 2), (31, 2), (35, 3), (43, 3), (51, 3), (59, 3), (67, 4),
  (83, 4), (99, 4), (115, 4), (131, 5), (163, 5), (195, 5), (227, 5), (258, 0)]

/-- For each distance symbol, the least distance and the bits to add to it. -/
def distanceBases : Array (Nat × Nat) := #[
  (1, 0), (2, 0), (3, 0), (4, 0), (5, 1), (7, 1), (9, 2), (13, 2), (17, 3), (25, 3), (33, 4),
  (49, 4), (65, 5), (97, 5), (129, 6), (193, 6), (257, 7), (385, 7), (513, 8), (769, 8),
  (1025, 9), (1537, 9), (2049, 10), (3073, 10), (4097, 11), (6145, 11), (8193, 12), (12289, 12),
  (16385, 13), (24577, 13)]

/-- The value of a symbol with its added bits. -/
def extended (data : ByteArray) (bases : Array (Nat × Nat)) (index : Nat) : Step Nat :=
  match bases[index]? with
  | none => throw .corrupt
  | some (base, extra) => return base + (← bits data extra)

/-- The byte that lies `distance` bytes before the end. -/
def back? (output : ByteArray) (distance : Nat) : Option UInt8 :=
  let i := output.size - distance
  if distance = 0 ∨ output.size < distance then none
  else if h : i < output.size then some output[i] else none

/-- Repeats `n` bytes from `distance` back, which may run into the repeated ones. -/
def repeatBack (distance : Nat) : Nat → Step Unit
  | 0 => return
  | n + 1 => do
    match back? (← get).output distance with
    | none => throw .corrupt
    | some byte =>
      emit byte
      repeatBack distance n

/-- Literals and references until the end of the block, at most `bound` of them. -/
def symbols (data : ByteArray) (literals distances : Code) : Nat → Step Unit
  | 0 => throw .truncated
  | bound + 1 => do
    let s ← literals.next data
    if s < 256 then
      emit s.toUInt8
      symbols data literals distances bound
    else if s = 256 then return
    else
      let length ← extended data lengthBases (s - 257)
      let distance ← extended data distanceBases (← distances.next data)
      repeatBack distance length
      symbols data literals distances bound

/-- Bytes that are stored as they are. -/
def copied (data : ByteArray) : Nat → Step Unit
  | 0 => return
  | n + 1 => do
    emit (← bits data 8).toUInt8
    copied data n

/-- A stored block starts at a byte, with its length and the complement of its length. -/
def stored (data : ByteArray) : Step Unit := do
  modify fun s => { s with position := (s.position + 7) / 8 * 8 }
  let length ← bits data 16
  let complement ← bits data 16
  if length + complement ≠ 0xFFFF then throw .corrupt
  copied data length

def fixedLiterals : Code :=
  .ofLengths (List.replicate 144 8 ++ List.replicate 112 9 ++ List.replicate 24 7 ++
    List.replicate 8 8)

/-- The last two of these stand for no distance. -/
def fixedDistances : Code := .ofLengths (List.replicate 32 5)

/-- Where the length of each code-length symbol stands. -/
def lengthOrder : List Nat := [16, 17, 18, 0, 8, 7, 9, 6, 10, 5, 11, 4, 12, 3, 13, 2, 14, 1, 15]

/-- The next code lengths after those already `done`, of which the last comes first. Runs of one
length are written short. -/
def lengthRun (data : ByteArray) (code : Code) (done : List Nat) : Step (List Nat) := do
  let s ← code.next data
  if s < 16 then return [s]
  else if s = 16 then
    let n ← bits data 2
    match done.head? with
    | none => throw .corrupt
    | some last => return List.replicate (3 + n) last
  else if s = 17 then return List.replicate (3 + (← bits data 3)) 0
  else return List.replicate (11 + (← bits data 7)) 0

/-- Code lengths, the last first, until there are `total`. -/
def codeLengths (data : ByteArray) (code : Code) (total : Nat) : Nat → List Nat → Step (List Nat)
  | 0, _ => throw .truncated
  | bound + 1, done => do
    if total < done.length then throw .corrupt
    else if done.length = total then return done
    else
      let next ← lengthRun data code done
      codeLengths data code total bound (next ++ done)

def lengthsInOrder (data : ByteArray) : Nat → Step (List Nat)
  | 0 => return []
  | n + 1 => do
    let first ← bits data 3
    return first :: (← lengthsInOrder data n)

/-- The codes that a block brings along, for literals and for distances. -/
def ownCodes (data : ByteArray) : Step (Code × Code) := do
  let literalCount := 257 + (← bits data 5)
  let distanceCount := 1 + (← bits data 5)
  let lengthCount := 4 + (← bits data 4)
  if 286 < literalCount ∨ 30 < distanceCount then throw .corrupt
  let given := lengthOrder.zip (← lengthsInOrder data lengthCount)
  let lengthCode := Code.ofLengths ((List.range 19).map fun i => (given.lookup i).getD 0)
  let total := literalCount + distanceCount
  if lengthCode.isEmpty then
    -- Every length takes one bit and is zero, so that the end of a block has no code.
    let _ ← bits data total
    throw .corrupt
  if lengthCode.slack? ≠ some 0 then throw .corrupt
  let lengths := (← codeLengths data lengthCode total (total + 1) []).reverse
  let literals := Code.ofLengths (lengths.take literalCount)
  let distances := Code.ofLengths (lengths.drop literalCount)
  if lengths[256]? = some 0 ∨ !literals.isUsable ∨ !distances.isUsable then throw .corrupt
  return (literals, distances)

/-- Blocks up to the last one, at most `bound` of them. -/
def blocks (data : ByteArray) : Nat → Step Unit
  | 0 => throw .truncated
  | bound + 1 => do
    let isLast ← bit data
    let kind ← bits data 2
    if kind = 0 then stored data
    else if kind = 1 then symbols data fixedLiterals fixedDistances (8 * data.size + 1)
    else if kind = 2 then
      let (literals, distances) ← ownCodes data
      symbols data literals distances (8 * data.size + 1)
    else throw .corrupt
    if isLast = 0 then blocks data bound

/-- The data before compression. What follows the last block is not looked at. -/
def inflate (data : ByteArray) : Except Stop ByteArray := do
  let (_, s) ← (blocks data (8 * data.size + 1)).run ⟨0, ByteArray.empty⟩
  return s.output

end ClassDeps.Inflate
