import Js5.Cursor

/-! # Sectors of 520 bytes, each with a header and a chunk of a group -/

namespace Js5

inductive Layout where
  | js5
  | legacy
  deriving DecidableEq, Repr

namespace Sector

def size : Nat := 520

def isExtended (group : UInt32) : Bool := 65536 ≤ group

def headerSize (group : UInt32) : Nat := if isExtended group then 10 else 8

def payloadSize (group : UInt32) : Nat := size - headerSize group

structure Header where
  group : UInt32
  chunk : UInt16
  next : UInt32
  archive : UInt8
  deriving DecidableEq, Repr

/-- The older layout numbers archives from one. -/
def firstArchive : Layout → UInt8
  | .js5 => 0
  | .legacy => 1

def readHeader (layout : Layout) (group : UInt32) : Cursor.Read Header := do
  let group ← if isExtended group then Cursor.u32 else UInt16.toUInt32 <$> Cursor.u16
  let chunk ← Cursor.u16
  let next ← Cursor.u24
  let archive ← Cursor.u8
  return ⟨group, chunk, next, archive - firstArchive layout⟩

def header (layout : Layout) (group : UInt32) (sector : Bytes) : Except OutOfBounds Header :=
  (readHeader layout group).run' (.ofBytes sector)

end Sector

end Js5
