import Js5.IndexFile
import Js5.Sector

/-! # The bytes of a group are read by going along its chain of sectors -/

namespace Js5.SectorChain

structure Source where
  data : Array UInt8
  layout : Layout
  archive : UInt8
  group : UInt32

namespace Source

def headerSize (s : Source) : Nat := Sector.headerSize s.group

def payloadSize (s : Source) : Nat := Sector.payloadSize s.group

/-- The first thing that a header is wrong about, if any. -/
def checkHeader (s : Source) (sector : UInt32) (chunk : Nat) (h : Sector.Header) : Except StoreError Unit :=
  if h.group ≠ s.group then
    .error (.sectorMismatch s.archive s.group sector .group s.group h.group)
  else if h.chunk ≠ UInt16.ofNat chunk then
    .error (.sectorMismatch s.archive s.group sector .chunk (UInt16.ofNat chunk).toUInt32 h.chunk.toUInt32)
  else if h.archive ≠ s.archive then
    .error (.sectorMismatch s.archive s.group sector .archive s.archive.toUInt32 h.archive.toUInt32)
  else .ok ()

/-- The `used` bytes of the payload of a sector, which holds chunk number `chunk`, and the next sector.
Chunk numbers start again at zero after 65536 of them. -/
def readSector (s : Source) (sector : UInt32) (chunk used : Nat) :
    Except StoreError (Array UInt8 × UInt32) := do
  let start := sector.toNat * Sector.size
  let payload := start + s.headerSize
  if s.data.size < payload + used then
    .error (.sectorOutOfBounds s.archive s.group sector)
  let header ← (Sector.header s.layout s.group (s.data.extract start payload).toList).mapError .outOfBounds
  s.checkHeader sector chunk header
  return (s.data.extract payload (payload + used), header.next)

/-- Goes along the chain from chunk number `chunk` in `sector`, with `left` sectors to come. -/
def walk (s : Source) (length : Nat) (chunk : Nat) (sector : UInt32) (buf : Array UInt8) :
    (left : Nat) → Except StoreError (Array UInt8)
  | 0 => if sector = 0 then .ok buf else .error (.unterminatedChain s.archive s.group sector)
  | left + 1 => do
    if sector = 0 then
      .error (.truncatedChain s.archive s.group length buf.size)
    let (bytes, next) ← s.readSector sector chunk (min (length - buf.size) s.payloadSize)
    walk s length (chunk + 1) next (buf ++ bytes) left

def sectorCount (s : Source) (length : Nat) : Nat := (length + s.payloadSize - 1) / s.payloadSize

/-- The bytes of a group, given where it starts and how long it is. A group without bytes has no chain. -/
def read (s : Source) (r : IndexRecord) : Except StoreError Bytes :=
  if r.length = 0 then .ok []
  else Array.toList <$> s.walk r.length.toNat 0 r.sector #[] (s.sectorCount r.length.toNat)

end Source

end Js5.SectorChain
