import Js5.Codec.Course
import Js5.Codec.Huffman

/-!
# The deflate format

One step for every block head, stored byte and coded symbol; each step but the last takes at least one bit.
-/

namespace Js5.Inflate

/-! ## Tables -/

/-- Least length and number of extra bits of each length symbol, from symbol 257 on. -/
def lengthClasses : Array (Nat × Nat) :=
  #[(3, 0), (4, 0), (5, 0), (6, 0), (7, 0), (8, 0), (9, 0), (10, 0), (11, 1), (13, 1), (15, 1), (17, 1),
    (19, 2), (23, 2), (27, 2), (31, 2), (35, 3), (43, 3), (51, 3), (59, 3), (67, 4), (83, 4), (99, 4),
    (115, 4), (131, 5), (163, 5), (195, 5), (227, 5), (258, 0)]

def distanceClasses : Array (Nat × Nat) :=
  #[(1, 0), (2, 0), (3, 0), (4, 0), (5, 1), (7, 1), (9, 2), (13, 2), (17, 3), (25, 3), (33, 4), (49, 4),
    (65, 5), (97, 5), (129, 6), (193, 6), (257, 7), (385, 7), (513, 8), (769, 8), (1025, 9), (1537, 9),
    (2049, 10), (3073, 10), (4097, 11), (6145, 11), (8193, 12), (12289, 12), (16385, 13), (24577, 13)]

def lengthOrder : List Nat := [16, 17, 18, 0, 8, 7, 9, 6, 10, 5, 11, 4, 12, 3, 13, 2, 14, 1, 15]

def fixedLiterals : Huffman :=
  .ofLengths 9 (.replicate 144 8 ++ .replicate 112 9 ++ .replicate 24 7 ++ .replicate 8 8)

def fixedDistances : Huffman := .ofLengths 5 (.replicate 32 5)

/-! ## Block heads -/

/-- A code for literals or distances is complete, or it has no word, or only one of a single bit. -/
def code (lengths : List Nat) : Bits.Read Huffman :=
  let words := lengths.filter (0 < ·)
  if Huffman.isComplete 15 lengths || words = [] || words = [1] then
    return .ofLengths (words.foldl max 1) lengths
  else throw .faulty

/-- Code lengths until there are `total` of them. Symbol 16 repeats the last one, 17 and 18 are runs of
zeros. -/
def codeLengths (h : Huffman) (total : Nat) : (steps : Nat) → Array Nat → Bits.Read (Array Nat)
  | 0, got => return got
  | steps + 1, got =>
    if total ≤ got.size then return got
    else do
      match ← h.read Bits.low with
      | 16 =>
        match got.back? with
        | none => throw .faulty
        | some l =>
          let n ← Bits.lowFirst 2
          codeLengths h total steps (got ++ Array.replicate (3 + n) l)
      | 17 =>
        let n ← Bits.lowFirst 3
        codeLengths h total steps (got ++ Array.replicate (3 + n) 0)
      | 18 =>
        let n ← Bits.lowFirst 7
        codeLengths h total steps (got ++ Array.replicate (11 + n) 0)
      | l => codeLengths h total steps (got.push l)

def sentCodes : Bits.Read (Huffman × Huffman) := do
  let literals := 257 + (← Bits.lowFirst 5)
  let distances := 1 + (← Bits.lowFirst 5)
  let sent := 4 + (← Bits.lowFirst 4)
  if 286 < literals || 30 < distances then
    throw .faulty
  let order := lengthOrder.take sent
  let lengths := order.zip (← Bits.list sent (Bits.lowFirst 3))
  let lengths := (List.range 19).map fun s => (lengths.lookup s).getD 0
  if !Huffman.isComplete 7 lengths then
    throw .faulty
  let h := .ofLengths 7 lengths
  let all := (← codeLengths h (literals + distances) (literals + distances) #[]).toList
  if all.length ≠ literals + distances then
    throw .faulty
  return (← code (all.take literals), ← code (all.drop literals))

/-! ## Steps -/

inductive Phase where
  | between (last : Bool)
  | stored (last : Bool) (left : Nat)
  | coded (last : Bool) (literals distances : Huffman)

structure State where
  bits : Bits
  output : Array UInt8
  phase : Phase

/-- `length` bytes from `distance` back, which may run into themselves. Zeros stand before the first byte of
output. -/
def copy (output : Array UInt8) (distance length : Nat) : Bytes :=
  (List.range length).map fun i =>
    let place := output.size + i % distance
    if place < distance then 0 else output[place - distance]?.getD 0

def blockHead : Bits.Read Phase := do
  let last := (← Bits.low) = 1
  match ← Bits.lowFirst 2 with
  | 0 =>
    Bits.align
    let length ← Bits.lowFirst 16
    let complement ← Bits.lowFirst 16
    if length + complement ≠ 65535 then
      throw .faulty
    return .stored last length
  | 1 => return .coded last fixedLiterals fixedDistances
  | 2 =>
    let (literals, distances) ← sentCodes
    return .coded last literals distances
  | _ => throw .faulty

def symbolBytes (output : Array UInt8) (distances : Huffman) (symbol : Nat) : Bits.Read Bytes := do
  if symbol < 256 then
    return [UInt8.ofNat symbol]
  let some (base, extra) := lengthClasses[symbol - 257]? | throw .faulty
  let length := base + (← Bits.lowFirst extra)
  let some (base, extra) := distanceClasses[← distances.read Bits.low]? | throw .faulty
  let distance := base + (← Bits.lowFirst extra)
  return copy output distance length

def advance (output : Array UInt8) : Phase → Bits.Read (Bytes × Phase)
  | .between _ => do
    return ([], ← blockHead)
  | .stored last 0 => return ([], .between last)
  | .stored last (left + 1) => do
    return ([UInt8.ofNat (← Bits.lowFirst 8)], .stored last left)
  | .coded last literals distances => do
    let symbol ← literals.read Bits.low
    if symbol = 256 then
      return ([], .between last)
    return (← symbolBytes output distances symbol, .coded last literals distances)

def step (s : State) : Progress State State :=
  match s.phase with
  | .between true => .done s
  | phase =>
    match (advance s.output phase).run s.bits with
    | .error why bits => .halted (bits.wanted why)
    | .ok ([], phase) bits => .silent { s with bits, phase }
    | .ok (bytes, phase) bits => .emit bits.taken bytes ⟨bits, s.output ++ bytes, phase⟩

def decode (bits : Bits) : Course State :=
  .ofSteps step (2 * (8 * bits.data.size) + 3) ⟨bits, #[], .between false⟩

end Js5.Inflate
