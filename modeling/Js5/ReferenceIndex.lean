import Js5.Cursor

/-!
# Reference indexes

The groups of an archive in ascending order, each with its files in ascending order, kept column by column.
Ids are kept as the steps from one to the next, the first from zero.
-/

namespace Js5

namespace ReferenceIndex

structure File where
  id : UInt32
  nameHash : Int32
  deriving DecidableEq, Repr

structure Group where
  id : UInt32
  nameHash : Int32
  version : UInt32
  checksum : UInt32
  uncompressedChecksum : UInt32
  length : UInt32
  uncompressedLength : UInt32
  digest : Bytes
  files : List File
  deriving DecidableEq, Repr

/-- One past the highest file id. It is kept in no field and has no bound: in 32 bits it would come out as
zero, or not at all, for the file id 4294967295. -/
def Group.capacity (g : Group) : Nat :=
  match g.files.getLast? with
  | none => 0
  | some file => file.id.toNat + 1

def Group.fileIds (g : Group) : List UInt32 := g.files.map File.id

inductive Error where
  | unsupportedProtocol (protocol : UInt8)
  | idOverflow (last : UInt32)
  | outOfBounds (e : OutOfBounds)
  deriving DecidableEq, Repr

def Error.message : Error → String
  | .unsupportedProtocol protocol => s!"unsupported reference index protocol {protocol.toNat}"
  | .idOverflow last => s!"group id overflows after group {last.toNat}"
  | .outOfBounds e => e.message

end ReferenceIndex

structure ReferenceIndex where
  protocol : UInt8
  version : Int32
  hasNames : Bool
  hasDigests : Bool
  hasLengths : Bool
  hasUncompressedChecksums : Bool
  groups : List ReferenceIndex.Group
  deriving DecidableEq, Repr

namespace ReferenceIndex

def get? (index : ReferenceIndex) (id : UInt32) : Option Group := index.groups.find? (·.id = id)

/-- The last of the groups with this name hash. -/
def named? (index : ReferenceIndex) (hash : UInt32) : Option UInt32 :=
  if index.hasNames then (index.groups.reverse.find? (·.nameHash.toUInt32 = hash)).map Group.id else none

def names (index : ReferenceIndex) : List (UInt32 × UInt32) :=
  if index.hasNames then
    let pairs := index.groups.map fun g => (g.nameHash.toUInt32, g.id)
    let keepLast := fun p (later : List (UInt32 × UInt32)) =>
      if later.head?.any (·.1 = p.1) then later else p :: later
    (pairs.mergeSort fun p q => p.1 ≤ q.1).foldr keepLast []
  else []

/-! ## Reading -/

abbrev Read := StateT Cursor (Except Error)

instance : MonadLift Cursor.Read Read where
  monadLift read := fun c => (read c).mapError .outOfBounds

/-- The protocols that write a version, and those that write ids of two bytes or four. -/
def isVersioned (protocol : UInt8) : Bool := 6 ≤ protocol

def isWide (protocol : UInt8) : Bool := 7 ≤ protocol

def readId (wide : Bool) : Read UInt32 :=
  if wide then Cursor.smart else return (← Cursor.u16).toUInt32

def readIds (wide : Bool) (last : UInt32) (done : Array UInt32) : (count : Nat) → Read (Array UInt32)
  | 0 => return done
  | count + 1 => do
    let delta ← readId wide
    if last.toNat + delta.toNat < UInt32.size then
      readIds wide (last + delta) (done.push (last + delta)) count
    else throw (.idOverflow last)

/-- A list of ids of the given length. An id that comes again is the same entry. -/
def readIdList (wide : Bool) (count : UInt32) : Read (List UInt32) := do
  return (← readIds wide 0 #[] count.toNat).toList.eraseReps

def column {α : Type} (present : Bool) (rows : List α) (read : α → Read α) : Read (List α) :=
  if present then rows.mapM read else return rows

def digestSize : Nat := 64

def Group.blank (id : UInt32) : Group := ⟨id, -1, 0, 0, 0, 0, 0, [], []⟩

def readColumns (index : ReferenceIndex) : Read (List Group) := do
  let groups ← column index.hasNames index.groups fun g => return { g with nameHash := ← Cursor.i32 }
  let groups ← column true groups fun g => return { g with checksum := ← Cursor.u32 }
  let groups ← column index.hasUncompressedChecksums groups fun g =>
    return { g with uncompressedChecksum := ← Cursor.u32 }
  let groups ← column index.hasDigests groups fun g =>
    return { g with digest := ← Cursor.take digestSize }
  let groups ← column index.hasLengths groups fun g =>
    return { g with length := ← Cursor.u32, uncompressedLength := ← Cursor.u32 }
  column true groups fun g => return { g with version := ← Cursor.u32 }

def readFiles (wide hasNames : Bool) (groups : List Group) : Read (List Group) := do
  let counts ← groups.mapM fun _ => readId wide
  let groups ← (groups.zip counts).mapM fun (g, count) =>
    return { g with files := (← readIdList wide count).map fun id => ⟨id, -1⟩ }
  column hasNames groups fun g =>
    return { g with files := ← g.files.mapM fun file => return { file with nameHash := ← Cursor.i32 } }

def readIndex : Read ReferenceIndex := do
  let protocol ← Cursor.u8
  if protocol < 5 || 7 < protocol then
    throw (.unsupportedProtocol protocol)
  let wide := isWide protocol
  let version ← if isVersioned protocol then liftM Cursor.i32 else pure 0
  let flags ← Cursor.u8
  let count ← readId wide
  let ids ← readIdList wide count
  let index := {
    protocol, version
    hasNames := flags &&& 1 != 0
    hasDigests := flags &&& 2 != 0
    hasLengths := flags &&& 4 != 0
    hasUncompressedChecksums := flags &&& 8 != 0
    groups := ids.map Group.blank }
  let groups ← readColumns index
  let groups ← readFiles wide index.hasNames groups
  return { index with groups }

/-- Reads an index from the front of the bytes; those behind it are not looked at. -/
def ofBytes (b : Bytes) : Except Error ReferenceIndex := readIndex.run' (.ofBytes b)

end ReferenceIndex

end Js5
