import Js5.Bytes

/-!
# The range coder

Bits are read against estimates, in units of 1 / 2048, of how likely a zero is; each bit moves its estimate.
-/

namespace Js5.Lzma

structure RangeCoder where
  input : Array UInt8
  position : Nat
  range : UInt32
  code : UInt32
  odds : Array UInt16

namespace RangeCoder

abbrev Read := StateT RangeCoder Option

def even : UInt16 := 1024

def byte : Read UInt8 := fun r =>
  match r.input[r.position]? with
  | some x => some (x, { r with position := r.position + 1 })
  | none => none

/-- The coder at the start of its input, whose first byte is passed over. -/
def start (input : Array UInt8) (position contexts : Nat) : Option RangeCoder := do
  let r : RangeCoder := ⟨input, position, 0xffffffff, 0, Array.replicate contexts even⟩
  let (code, r) ← (do let _ ← byte; return [← byte, ← byte, ← byte, ← byte] : Read Bytes).run r
  return { r with code := UInt32.ofNat (Bytes.toNat code) }

def refill : Read Unit := fun r =>
  if r.range < 0x1000000 then
    match r.input[r.position]? with
    | some x =>
      some ((), { r with
        position := r.position + 1
        range := r.range <<< 8
        code := (r.code <<< 8) ^^^ x.toUInt32 })
    | none => none
  else some ((), r)

def bit (i : Nat) : Read Nat := fun r =>
  let odds := r.odds[i]?.getD even
  let bound := (r.range >>> 11) * odds.toUInt32
  if r.code < bound then
    (do refill; return 0 : Read Nat) { r with
      range := bound
      odds := r.odds.setIfInBounds i (odds + ((0x800 - odds) >>> 5)) }
  else
    (do refill; return 1 : Read Nat) { r with
      range := r.range - bound
      code := r.code - bound
      odds := r.odds.setIfInBounds i (odds - (odds >>> 5)) }

def evenBit : Read Nat := fun r =>
  let half := r.range >>> 1
  if r.code < half then (do refill; return 0 : Read Nat) { r with range := half }
  else (do refill; return 1 : Read Nat) { r with range := half, code := r.code - half }

def evenBits (above : Nat) : (n : Nat) → Read Nat
  | 0 => return above
  | n + 1 => do
    evenBits (2 * above + (← evenBit)) n

/-- `n` bits below `above`, high bit first, each in the context that the number so far selects. -/
def tree (base above : Nat) : (n : Nat) → Read Nat
  | 0 => return above
  | n + 1 => do
    tree base (2 * above + (← bit (base + above))) n

def number (base n : Nat) : Read Nat := return (← tree base 1 n) - 1 <<< n

/-- A number of `n` bits, low bit first; `node` holds the bits so far. -/
def reverse (base node : Nat) : (n : Nat) → Read Nat
  | 0 => return 0
  | n + 1 => do
    let b ← bit (base + node)
    return b + 2 * (← reverse base (2 * node + b) n)

end RangeCoder

end Js5.Lzma
