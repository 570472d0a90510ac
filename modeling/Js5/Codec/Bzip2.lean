import Js5.Codec.Course
import Js5.Codec.Huffman
import Js5.Codec.Bzip2.Runs
import Js5.Codec.Bzip2.Scramble
import Js5.Crc32

/-! # Bzip2, one step of the decoder for a block -/

namespace Js5.Bzip2

def largestBlock (level : Nat) : Nat := 100000 * level

/-- A run whose next digit is worth as much as this is refused outright. -/
def longestRun : Nat := 2097152

def bitFlag : Bits.Read Bool := return (← Bits.high) = 1

/-! ## The head of a block -/

def alphabet : Bits.Read (List UInt8) := do
  let rows ← Bits.list 16 bitFlag
  let used ← rows.mapM fun row => if row then Bits.list 16 bitFlag else return List.replicate 16 false
  let values := used.flatten.zipIdx.filterMap fun (u, x) => if u then some (UInt8.ofNat x) else none
  if values.isEmpty then
    throw .faulty
  return values

def unary (sofar : Nat) : (bound : Nat) → Bits.Read Nat
  | 0 => throw .faulty
  | bound + 1 => do
    if ← bitFlag then
      unary (sofar + 1) bound
    else return sofar

def toFront {α : Type} (items : List α) (i : Nat) : Option (α × List α) :=
  match items[i]? with
  | some x => some (x, x :: items.eraseIdx i)
  | none => none

def fromPlaces (items : List Nat) : (places : List Nat) → Array Nat → Option (Array Nat)
  | [], done => some done
  | i :: places, done =>
    match toFront items i with
    | some (x, items) => fromPlaces items places (done.push x)
    | none => none

/-- A code length near `length`: as long as ones come, the next bit says whether it grows or shrinks. -/
def codeLength (length : Nat) : (steps : Nat) → Bits.Read Nat
  | 0 => throw .exhausted
  | steps + 1 => do
    if length < 1 || 20 < length then
      throw .faulty
    if ← bitFlag then
      if ← bitFlag then codeLength (length - 1) steps
      else codeLength (length + 1) steps
    else return length

def codeLengths (length : Nat) : (symbols : Nat) → List Nat → Bits.Read (List Nat)
  | 0, done => return done.reverse
  | symbols + 1, done => do
    let bits ← get
    let length ← codeLength length (8 * bits.data.size + 1)
    codeLengths length symbols (length :: done)

/-- The most bits that are read for a symbol. Words have twenty at most, so with one more there is none. -/
def mostBits : Nat := 21

def code (symbols : Nat) : Bits.Read Huffman := do
  let first ← Bits.highFirst 0 5
  return .ofLengths mostBits (← codeLengths first symbols [])

/-! ## The symbols of a block -/

/-- A block being read: how many symbols there were, the byte values by how recently they were used, and a
run of the first of them that is still growing, with the worth of its next digit. -/
structure Reading where
  most : Nat
  symbols : Nat
  recent : List UInt8
  run : Nat
  worth : Nat
  block : Array UInt8

def Reading.endRun (r : Reading) : Bits.Read Reading :=
  if r.most < r.block.size + r.run then throw .faulty
  else return { r with run := 0, worth := 1, block := r.block ++ Array.replicate r.run (r.recent.headD 0) }

def Reading.symbol (r : Reading) (codes : Array Huffman) (selectors : Array Nat) : Bits.Read Nat := do
  let some selector := selectors[r.symbols / 50]? | throw .faulty
  let some code := codes[selector]? | throw .faulty
  code.read Bits.high

/-- Reads up to the end symbol, which is `last`. Symbols 0 and 1 are the digits of a run. -/
def symbols (codes : Array Huffman) (selectors : Array Nat) (last : Nat) :
    (steps : Nat) → Reading → Bits.Read (Array UInt8)
  | 0, _ => throw .faulty
  | steps + 1, r => do
    let symbol ← r.symbol codes selectors
    let r := { r with symbols := r.symbols + 1 }
    if symbol ≤ 1 then
      if longestRun ≤ r.worth then
        throw .faulty
      symbols codes selectors last steps
        { r with run := r.run + (symbol + 1) * r.worth, worth := 2 * r.worth }
    else do
      let r ← r.endRun
      if symbol = last then
        return r.block
      if r.most ≤ r.block.size then
        throw .faulty
      let some (x, recent) := toFront r.recent (symbol - 1) | throw .faulty
      symbols codes selectors last steps { r with recent, block := r.block.push x }

/-! ## The order of a block -/

def smaller (block : Array UInt8) : Array Nat :=
  let counts := block.foldl (fun c x => c.modify x.toNat (· + 1)) (Array.replicate 256 0)
  (counts.foldl (fun (sum, done) n => (sum + n, done.push sum)) (0, #[])).2

def links (block : Array UInt8) : Array Nat :=
  let place := fun (next, found) (x, i) =>
    let p := next[x.toNat]?.getD 0
    (next.modify x.toNat (· + 1), found.setIfInBounds p i)
  (block.zipIdx.foldl place (smaller block, Array.replicate block.size 0)).2

def follow (block : Array UInt8) (links : Array Nat) : (n place : Nat) → Array UInt8 → Array UInt8
  | 0, _, done => done
  | n + 1, place, done =>
    let place := links[place]?.getD 0
    follow block links n place (done.push (block[place]?.getD 0))

/-- The block whose rotations end in the bytes of `block` when sorted, itself the one at `origin`, and the
byte that comes round after it. -/
def unsort (block : Array UInt8) (origin : Nat) : Array UInt8 :=
  follow block (links block) (block.size + 1) origin #[]

/-! ## Blocks and the end of the stream -/

/-- How a block ends: well, in a fault that shows with its last byte, or in one that shows only where a byte
after that is asked for. -/
inductive Ending where
  | sound
  | faulty
  | lacking

/-- The bytes of a block, its checksum and its ending. A block that is not scrambled and lacks the count of
its last run is faulty. -/
def block (level : Nat) : Bits.Read (Array UInt8 × UInt32 × Ending) := do
  let sum := UInt32.ofNat (← Bits.highFirst 0 32)
  let scrambled ← bitFlag
  let origin ← Bits.highFirst 0 24
  if largestBlock level + 10 < origin then
    throw .faulty
  let values ← alphabet
  let n ← Bits.highFirst 0 3
  if n < 2 || 6 < n then
    throw .faulty
  let m ← Bits.highFirst 0 15
  if m < 1 then
    throw .faulty
  let places ← Bits.list m (unary 0 n)
  let some selectors := fromPlaces (List.range n) places #[] | throw .faulty
  let codes ← Bits.list n (code (values.length + 2))
  let sorted ← symbols codes.toArray selectors (values.length + 1) (50 * m + 1)
    ⟨largestBlock level, 0, values, 0, 1, #[]⟩
  if sorted.size ≤ origin then
    throw .faulty
  let turned := unsort sorted origin
  let whole := if scrambled then unscramble turned else turned
  let (bytes, ended) := expandRuns whole.pop (whole.back?.getD 0)
  let ending :=
    if ended then if crc32High bytes.toList = sum then .sound else .faulty
    else if scrambled then .lacking else .faulty
  return (bytes, sum, ending)

structure State where
  level : Nat
  bits : Bits
  ending : Ending
  sum : UInt32

def blockMark : Nat := 0x314159265359

def endMark : Nat := 0x177245385090

/-- Reads a mark byte by byte, so that a wrong byte is a fault even where the rest is missing. -/
def mark (ahead : List Nat) : (bytes : Nat) → Nat → Bits.Read Nat
  | 0, read => return read
  | bytes + 1, read => do
    let read ← Bits.highFirst read 8
    if ahead.any fun m => m >>> (8 * bytes) = read then
      mark ahead bytes read
    else throw .faulty

def advance (level : Nat) (sum : UInt32) : Bits.Read (Option (Array UInt8 × UInt32 × Ending)) := do
  if (← mark [blockMark, endMark] 6 0) = blockMark then
    return some (← block level)
  else
    if (← Bits.highFirst 0 32) ≠ sum.toNat then
      throw .faulty
    return none

def step (s : State) : Progress State Unit :=
  match s.ending with
  | .faulty => .halted s.bits.taken
  | .lacking => .emit s.bits.taken [] { s with ending := .faulty }
  | .sound =>
    match (advance s.level s.sum).run s.bits with
    | .error why bits => .halted (bits.wanted why)
    | .ok none _ => .done ()
    | .ok (some (bytes, sum, ending)) bits =>
      .emit bits.taken bytes.toList ⟨s.level, bits, ending, ((s.sum <<< 1) ||| (s.sum >>> 31)) ^^^ sum⟩

/-- The letters BZh. -/
def streamMark : Nat := 0x425a68

def header : Bits.Read Nat := do
  let _ ← mark [streamMark] 3 0
  let digit ← Bits.highFirst 0 8
  if digit < 0x31 || 0x39 < digit then
    throw .faulty
  return digit - 0x30

def piece : Nat := 8192

/-- After `n` bytes the request is for `ask n` bytes. -/
def decode (input : Bytes) (ask : Nat → Nat) : Delivery Unit :=
  match header.run (.ofBytes input) with
  | .error .. => .failed
  | .ok level bits =>
    let supply := ⟨input.length, piece⟩
    (Course.ofSteps step (2 * input.length + 2) ⟨level, bits, .sound, 0⟩).deliver supply ask .first

end Js5.Bzip2
