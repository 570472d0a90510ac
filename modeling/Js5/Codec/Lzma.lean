import Js5.Codec.Lzma.RangeCoder

/-!
# LZMA

The length of the output is known beforehand: the decoder stops as soon as that many bytes are out, and
every other end is a failure.
-/

namespace Js5.Lzma

/-! ## Contexts -/

namespace Context

def isMatch (mode position : Nat) : Nat := 16 * mode + position
def isRepeat (mode : Nat) : Nat := 192 + mode
def isOlder (mode : Nat) : Nat := 204 + mode
def isThird (mode : Nat) : Nat := 216 + mode
def isFourth (mode : Nat) : Nat := 228 + mode
def isLong (mode position : Nat) : Nat := 240 + 16 * mode + position

def matchLength : Nat := 432

def repeatLength : Nat := 946

def slot (lengthClass : Nat) : Nat := 1460 + 64 * lengthClass
def distance : Nat := 1716
def align : Nat := 1831
def literal (i : Nat) : Nat := 1847 + 768 * i

end Context

/-! ## The decoder -/

/-- How many bits of the last byte and of the position select a literal, and of the position a packet. -/
structure Properties where
  literalContext : Nat
  literalPosition : Nat
  position : Nat
  dictionary : Nat

/-- The output, a summary of the last packets, and the last four distances less one. -/
structure State where
  output : Array UInt8
  mode : Nat
  recent : Nat × Nat × Nat × Nat

open RangeCoder

def State.back? (s : State) (p : Properties) (distance : Nat) : Option UInt8 :=
  if p.dictionary < distance || s.output.size < distance then none
  else s.output[s.output.size - distance]?

/-- Appends `length` bytes from `distance` back, which may run into themselves. -/
def State.copy (s : State) (p : Properties) (distance length : Nat) : Option State :=
  if p.dictionary < distance || s.output.size < distance then none
  else
    let origin := s.output.size - distance
    let bytes := (List.range length).map fun i => s.output[origin + i % distance]?.getD 0
    some { s with output := s.output ++ bytes }

/-- The rest of a literal after a match, guided by the byte that a repeated match would have given as long
as the two agree. -/
def guided (base guide node : Nat) : (n : Nat) → Read Nat
  | 0 => return node
  | n + 1 => do
    let expected := (guide >>> n) % 2
    let b ← bit (base + 256 * (1 + expected) + node)
    if b = expected then guided base guide (2 * node + b) n
    else tree base (2 * node + b) n

def literal (p : Properties) (s : State) : Read State := do
  let last := (s.output.back?.getD 0).toNat
  let place := s.output.size % 1 <<< p.literalPosition
  let place := place <<< p.literalContext + last >>> (8 - p.literalContext)
  let base := Context.literal place
  let node ←
    if s.mode < 7 then tree base 1 8
    else do
      let some guide := s.back? p (s.recent.1 + 1) | failure
      guided base guide.toNat 1 8
  let mode := if s.mode < 4 then 0 else if s.mode < 10 then s.mode - 3 else s.mode - 6
  return { s with output := s.output.push (UInt8.ofNat node), mode }

/-- A length less two. -/
def matchLength (base position : Nat) : Read Nat := do
  if (← bit base) = 0 then
    number (base + 2 + 8 * position) 3
  else if (← bit (base + 1)) = 0 then
    return 8 + (← number (base + 130 + 8 * position) 3)
  else
    return 16 + (← number (base + 258) 8)

/-- A distance less one, given a length less two. -/
def newDistance (length : Nat) : Read Nat := do
  let slot ← number (Context.slot (min length 3)) 6
  if slot < 4 then
    return slot
  let bits := slot / 2 - 1
  let least := (2 + slot % 2) <<< bits
  if slot < 14 then
    return least + (← reverse (Context.distance + least - slot) 1 bits)
  else
    let high ← evenBits 0 (bits - 4)
    return least + 16 * high + (← reverse Context.align 1 4)

def olderDistance (s : State) : Read (Nat × Nat × Nat × Nat) := do
  let (a, b, c, d) := s.recent
  if (← bit (Context.isThird s.mode)) = 0 then
    return (b, a, c, d)
  else if (← bit (Context.isFourth s.mode)) = 0 then
    return (c, a, b, d)
  else
    return (d, a, b, c)

/-- The distance that marks an end, which no output of known length may have before it. -/
def endMark : Nat := 0xffffffff

def packet (p : Properties) (s : State) : Read State := do
  let position := s.output.size % 1 <<< p.position
  if (← bit (Context.isMatch s.mode position)) = 0 then
    literal p s
  else if (← bit (Context.isRepeat s.mode)) = 0 then
    let length ← matchLength Context.matchLength position
    let distance ← newDistance length
    if distance = endMark then
      failure
    let (a, b, c, _) := s.recent
    let s := { s with mode := if s.mode < 7 then 7 else 10, recent := (distance, a, b, c) }
    s.copy p (distance + 1) (length + 2)
  else if (← bit (Context.isOlder s.mode)) = 0 then
    if (← bit (Context.isLong s.mode position)) = 0 then
      let s := { s with mode := if s.mode < 7 then 9 else 11 }
      s.copy p (s.recent.1 + 1) 1
    else
      repeatMatch position s.recent
  else
    repeatMatch position (← olderDistance s)
where
  repeatMatch (position : Nat) (recent : Nat × Nat × Nat × Nat) : Read State := do
    let length ← matchLength Context.repeatLength position
    let s := { s with mode := if s.mode < 7 then 8 else 11, recent }
    s.copy p (recent.1 + 1) (length + 2)

def packets (p : Properties) (declared : Nat) : (steps : Nat) → State → Read State
  | 0, s => return s
  | steps + 1, s =>
    if declared ≤ s.output.size then return s
    else do
      packets p declared steps (← packet p s)

def properties (header : Bytes) : Option Properties :=
  match header with
  | [x, d0, d1, d2, d3] =>
    if 225 ≤ x.toNat then none
    else
      some {
        literalContext := x.toNat % 9
        literalPosition := x.toNat / 9 % 5
        position := x.toNat / 45
        dictionary := max 4096 (Bytes.toNat [d3, d2, d1, d0]) }
  | _ => none

def decode (payload : Bytes) (declared : Nat) : Option (Array UInt8) := do
  let p ← properties (payload.take 5)
  let contexts := Context.literal (1 <<< (p.literalContext + p.literalPosition))
  let coder ← RangeCoder.start payload.toArray 5 contexts
  let (s, _) ← (packets p declared declared ⟨#[], 0, (0, 0, 0, 0)⟩).run coder
  if s.output.size = declared then some s.output else none

end Js5.Lzma
