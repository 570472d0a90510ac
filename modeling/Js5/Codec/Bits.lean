import Js5.Bytes

/-! # Bits of bytes, taken from each byte low bit first or high bit first -/

namespace Js5

structure Bits where
  data : Array UInt8
  position : Nat

inductive Halt where
  | exhausted
  | faulty
  deriving DecidableEq, Repr

namespace Bits

abbrev Read := EStateM Halt Bits

def ofBytes (b : Bytes) : Bits := ⟨b.toArray, 0⟩

/-- How many bytes are behind, one that has been begun among them. -/
def taken (b : Bits) : Nat := (b.position + 7) / 8

/-- How many bytes a decoder that halts here would have taken. -/
def wanted (b : Bits) : Halt → Nat
  | .exhausted => b.data.size + 1
  | .faulty => b.taken

/-- The next bit, where bit `place i` of a byte is its `i`-th. -/
def bit (place : Nat → Nat) : Read Nat := fun b =>
  match b.data[b.position / 8]? with
  | some x => .ok ((x.toNat >>> place (b.position % 8)) % 2) { b with position := b.position + 1 }
  | none => .error .exhausted b

def low : Read Nat := bit id

def high : Read Nat := bit (7 - ·)

def lowFirst : (n : Nat) → Read Nat
  | 0 => return 0
  | n + 1 => do
    let b ← low
    return b + 2 * (← lowFirst n)

/-- A number of `n` bits, its high bit first, below the bits `above`. -/
def highFirst (above : Nat) : (n : Nat) → Read Nat
  | 0 => return above
  | n + 1 => do
    highFirst (2 * above + (← high)) n

def align : Read Unit := modify fun b => { b with position := 8 * b.taken }

def list {α : Type} (n : Nat) (read : Read α) : Read (List α) :=
  (List.range n).mapM fun _ => read

end Bits

end Js5
