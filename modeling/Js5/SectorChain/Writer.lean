import Js5.SectorChain

/-! # Writing sector chains: one sector after the other, filled up with zeros -/

namespace Js5

namespace Sector

def idWidth (group : UInt32) : Nat := if group.toNat < 65536 then 2 else 4

def storedArchive : Layout → UInt8 → UInt8
  | .js5, archive => archive
  | .legacy, archive => archive + 1

def writeHeader (layout : Layout) (archive : UInt8) (group : UInt32) (chunk next : Nat) : Bytes :=
  Bytes.ofNat (idWidth group) group.toNat ++ Bytes.ofNat 2 chunk ++ Bytes.ofNat 3 next
    ++ [storedArchive layout archive]

end Sector

namespace SectorChain

def room (group : UInt32) : Nat := if group.toNat < 65536 then 512 else 510

def chunk (group : UInt32) (packed : Bytes) (i : Nat) : Bytes :=
  (packed.drop (i * room group)).take (room group)

def sectors (group : UInt32) (packed : Bytes) : Nat := (packed.length + room group - 1) / room group

/-- The sector with chunk number `i` of a group whose sectors follow each other from `first` on. -/
def sector (layout : Layout) (archive : UInt8) (group : UInt32) (packed : Bytes) (first i : Nat) : Bytes :=
  let next := if i + 1 = sectors group packed then 0 else first + i + 1
  let bytes := Sector.writeHeader layout archive group i next ++ chunk group packed i
  bytes ++ List.replicate (Sector.size - bytes.length) 0

def write (layout : Layout) (archive : UInt8) (group : UInt32) (packed : Bytes) (first : Nat) : Bytes :=
  (List.range (sectors group packed)).flatMap (sector layout archive group packed first)

end SectorChain

end Js5
