import Js5.ReferenceIndex

/-! # Writing reference indexes, column by column in the order in which they are read -/

namespace Js5.ReferenceIndex

/-- An id, or a number of ids. A wide one takes two bytes if they leave its top bit clear, and four bytes
with the top bit set otherwise. -/
def writeId (wide : Bool) (id : Nat) : Bytes :=
  if wide && 0x8000 ≤ id then Bytes.ofNat 4 (0x80000000 + id) else Bytes.ofNat 2 id

def writeIds (wide : Bool) (last : Nat) : (ids : List UInt32) → Bytes
  | [] => []
  | id :: ids => writeId wide (id.toNat - last) ++ writeIds wide id.toNat ids

def writeWord (n : UInt32) : Bytes := Bytes.ofNat 4 n.toNat

def writeSigned (n : Int32) : Bytes := writeWord n.toUInt32

def writeColumn {α : Type} (present : Bool) (rows : List α) (write : α → Bytes) : Bytes :=
  if present then rows.flatMap write else []

def flags (index : ReferenceIndex) : UInt8 :=
  (if index.hasNames then 1 else 0) + (if index.hasDigests then 2 else 0)
    + (if index.hasLengths then 4 else 0) + (if index.hasUncompressedChecksums then 8 else 0)

def toBytes (index : ReferenceIndex) : Bytes :=
  let wide := isWide index.protocol
  let groups := index.groups
  [index.protocol]
    ++ (if isVersioned index.protocol then writeSigned index.version else [])
    ++ [index.flags]
    ++ writeId wide groups.length
    ++ writeIds wide 0 (groups.map Group.id)
    ++ writeColumn index.hasNames groups (fun g => writeSigned g.nameHash)
    ++ writeColumn true groups (fun g => writeWord g.checksum)
    ++ writeColumn index.hasUncompressedChecksums groups (fun g => writeWord g.uncompressedChecksum)
    ++ writeColumn index.hasDigests groups Group.digest
    ++ writeColumn index.hasLengths groups (fun g => writeWord g.length ++ writeWord g.uncompressedLength)
    ++ writeColumn true groups (fun g => writeWord g.version)
    ++ writeColumn true groups (fun g => writeId wide g.files.length)
    ++ writeColumn true groups (fun g => writeIds wide 0 g.fileIds)
    ++ writeColumn index.hasNames groups (fun g => g.files.flatMap fun file => writeSigned file.nameHash)

end Js5.ReferenceIndex
