import Js5.Envelope
import Js5.ReferenceIndex
import Js5.Store
import Js5.Stripes

/-!
# Archives

An archive of the newer layout has a reference index, which says what files each group has and what their
checksums are. The reference archive and the archives of the older layout have none.
-/

namespace Js5

inductive Checksum where
  | packed
  | uncompressed
  deriving DecidableEq, Repr

def Checksum.name : Checksum → String
  | .packed => "checksum"
  | .uncompressed => "uncompressed checksum"

inductive ArchiveError where
  | unknownArchive (archive : UInt8)
  | unknownGroup (archive : UInt8) (group : UInt32)
  | unknownName (archive : UInt8) (hash : UInt32)
  | checksumMismatch (archive : UInt8) (group : UInt32) (field : Checksum) (expected actual : UInt32)
  | lengthMismatch (archive : UInt8) (group : UInt32) (expected actual : Nat)
  | store (e : StoreError)
  | envelope (e : Envelope.Error)
  | referenceIndex (e : ReferenceIndex.Error)
  | stripes (e : Stripes.Error)
  deriving DecidableEq, Repr

namespace ArchiveError

def kind : ArchiveError → ErrorKind
  | .unknownArchive _ | .unknownGroup .. | .unknownName .. => .notFound
  | .checksumMismatch .. | .lengthMismatch .. => .corruption
  | .store e => e.kind
  | .envelope e => e.kind
  | .referenceIndex _ => .format
  | .stripes e => e.kind

def hexWord (n : UInt32) : String :=
  "0x" ++ String.ofList ((Nat.toDigits 16 n.toNat).leftpad 8 '0')

def message : ArchiveError → String
  | .unknownArchive archive => s!"archive {archive.toNat} has no reference index"
  | .unknownGroup archive group =>
    s!"group {group.toNat} is not in the reference index of archive {archive.toNat}"
  | .unknownName archive hash => s!"no group named {hexWord hash} in archive {archive.toNat}"
  | .checksumMismatch archive group field expected actual =>
    s!"group ({archive.toNat}, {group.toNat}) has {field.name} {hexWord actual}, expected {hexWord expected}"
  | .lengthMismatch archive group expected actual =>
    s!"group ({archive.toNat}, {group.toNat}) is {actual} bytes, expected {expected}"
  | .store e => e.message
  | .envelope e => e.message
  | .referenceIndex e => e.message
  | .stripes e => e.message

end ArchiveError

structure Archive where
  id : UInt8
  index : Option ReferenceIndex
  verify : Bool
  deriving DecidableEq, Repr

namespace Archive

def openIndex (id : UInt8) : Except StoreError Bytes → Except ArchiveError ReferenceIndex
  | .error (.unknownGroup ..) => .error (.unknownArchive id)
  | .error e => .error (.store e)
  | .ok packed => do
    let envelope ← (Envelope.decode packed none).mapError .envelope
    (ReferenceIndex.ofBytes envelope.data).mapError .referenceIndex

def load {W S : Type} [Store W S] (w : W) (s : S) (id : UInt8) (options : Options) :
    Except ArchiveError Archive × S :=
  if !Store.hasArchive w s id then (.error (.store (.unknownArchive id)), s)
  else if id = Store.referenceArchive || Store.layout s = .legacy then
    (.ok ⟨id, none, options.verifyChecksums⟩, s)
  else
    let (packed, s) := Store.read w s Store.referenceArchive id.toUInt32
    ((openIndex id packed).map fun index => ⟨id, some index, options.verifyChecksums⟩, s)

def entry (a : Archive) (group : UInt32) : Except ArchiveError (Option ReferenceIndex.Group) :=
  match a.index with
  | none => .ok none
  | some index =>
    match index.get? group with
    | some entry => .ok (some entry)
    | none => .error (.unknownGroup a.id group)

def groupByName (a : Archive) (hash : UInt32) : Except ArchiveError UInt32 :=
  match a.index.bind (·.named? hash) with
  | some group => .ok group
  | none => .error (.unknownName a.id hash)

/-! ## Verification -/

def checkChecksum (a : Archive) (group : UInt32) (field : Checksum) (expected actual : UInt32) :
    Except ArchiveError Unit :=
  if expected = actual then .ok () else .error (.checksumMismatch a.id group field expected actual)

/-- The checksum of a packed group leaves out its version. -/
def verifyPacked (a : Archive) (g : ReferenceIndex.Group) (packed : Bytes) : Except ArchiveError Unit :=
  if a.verify then
    a.checkChecksum g.id .packed g.checksum (crc32 (packed.take (Envelope.packedLength packed)))
  else .ok ()

def verifyData (a : Archive) (index : ReferenceIndex) (g : ReferenceIndex.Group) (data : Bytes) :
    Except ArchiveError Unit :=
  if !a.verify then .ok ()
  else if index.hasLengths && g.uncompressedLength.toNat ≠ data.length then
    .error (.lengthMismatch a.id g.id g.uncompressedLength.toNat data.length)
  else if index.hasUncompressedChecksums then
    a.checkChecksum g.id .uncompressed g.uncompressedChecksum (crc32 data)
  else .ok ()

/-! ## Reading -/

def unpack (a : Archive) (entry : Option ReferenceIndex.Group) (key : Option Xtea.Key) (packed : Bytes) :
    Except ArchiveError Bytes := do
  if let some g := entry then
    a.verifyPacked g packed
  let envelope ← (Envelope.decode packed key).mapError .envelope
  if let (some index, some g) := (a.index, entry) then
    a.verifyData index g envelope.data
  return envelope.data

def readWith {W S α : Type} [Store W S] (w : W) (s : S) (a : Archive) (group : UInt32)
    (key : Option Xtea.Key) (f : Option ReferenceIndex.Group → Bytes → Except ArchiveError α) :
    Except ArchiveError α × S :=
  match a.entry group with
  | .error e => (.error e, s)
  | .ok entry =>
    let (packed, s) := Store.read w s a.id group
    (do f entry (← a.unpack entry key (← packed.mapError .store)), s)

def read {W S : Type} [Store W S] (w : W) (s : S) (a : Archive) (group : UInt32) (file : UInt16)
    (key : Option Xtea.Key) : Except ArchiveError Bytes × S :=
  a.readWith w s group key fun entry data =>
    match entry with
    | some g => (Stripes.file data g.fileIds file.toUInt32).mapError .stripes
    | none => .ok data

def readNamed {W S : Type} [Store W S] (w : W) (s : S) (a : Archive) (hash : UInt32) (file : UInt16)
    (key : Option Xtea.Key) : Except ArchiveError Bytes × S :=
  match a.groupByName hash with
  | .error e => (.error e, s)
  | .ok group => a.read w s group file key

def readGroup {W S : Type} [Store W S] (w : W) (s : S) (a : Archive) (group : UInt32)
    (key : Option Xtea.Key) : Except ArchiveError (List (UInt32 × Bytes)) × S :=
  a.readWith w s group key fun entry data =>
    match entry with
    | some g => (Stripes.split data g.fileIds).mapError .stripes
    | none => .ok [(0, data)]

end Archive

end Js5
