import Js5.Bytes

/-!
# Cursors over bytes

A step that needs more bytes than are left fails and gives no new cursor: the old one stands where it stood.
-/

namespace Js5

structure Cursor where
  data : Array UInt8
  position : Nat
  position_le : position ≤ data.size

structure OutOfBounds where
  position : Nat
  needed : Nat
  available : Nat
  deriving DecidableEq, Repr

def OutOfBounds.message (e : OutOfBounds) : String :=
  s!"read of {e.needed} bytes at position {e.position} is out of bounds ({e.available} available)"

namespace Cursor

abbrev Read := StateT Cursor (Except OutOfBounds)

def ofBytes (b : Bytes) : Cursor := ⟨b.toArray, 0, Nat.zero_le _⟩

def size (c : Cursor) : Nat := c.data.size

def remaining (c : Cursor) : Nat := c.data.size - c.position

def rest (c : Cursor) : Bytes := c.data.toList.drop c.position

theorem length_rest (c : Cursor) : c.rest.length = c.remaining := by
  simp [rest, remaining]

/-- Moves to any position up to the end. A position past it is reported as asked for. -/
def seek (position : Nat) : Read Unit := fun c =>
  if h : position ≤ c.data.size then .ok ((), { c with position, position_le := h })
  else .error ⟨position, 0, 0⟩

def take (n : Nat) : Read Bytes := fun c =>
  if h : n ≤ c.remaining then
    have := c.position_le
    .ok ((c.data.extract c.position (c.position + n)).toList,
      { c with position := c.position + n, position_le := by simp only [remaining] at h; omega })
  else .error ⟨c.position, n, c.remaining⟩

def skip (n : Nat) : Read Unit := do
  let _ ← take n

def takeRest : Read Bytes := fun c =>
  .ok ((c.data.extract c.position c.data.size).toList,
    { c with position := c.data.size, position_le := Nat.le_refl _ })

def u8 : Read UInt8 := do
  return UInt8.ofNat (Bytes.toNat (← take 1))

def u16 : Read UInt16 := do
  return UInt16.ofNat (Bytes.toNat (← take 2))

def u24 : Read UInt32 := do
  return UInt32.ofNat (Bytes.toNat (← take 3))

def u32 : Read UInt32 := do
  return UInt32.ofNat (Bytes.toNat (← take 4))

def i32 : Read Int32 := do
  return (← u32).toInt32

def peek : Read UInt8 := fun c =>
  match c.data[c.position]? with
  | some x => .ok (x, c)
  | none => .error ⟨c.position, 1, 0⟩

/-- A number of two bytes or four: the top bit of the first byte marks the longer form and is not part of
the number. -/
def smart : Read UInt32 := do
  if (← peek) &&& 0x80 != 0 then
    return (← u32) &&& 0x7fffffff
  else
    return (← u16).toUInt32

end Cursor

end Js5
