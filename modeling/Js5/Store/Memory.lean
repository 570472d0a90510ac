import Js5.Store

/-! # Stores in memory: an archive is there as soon as it has a group -/

namespace Js5

structure MemoryStore where
  layout : Layout
  groups : List ((UInt8 × UInt32) × Bytes)

namespace MemoryStore

/-- Adds a group, in place of one that is there. -/
def insert (s : MemoryStore) (archive : UInt8) (group : UInt32) (packed : Bytes) : MemoryStore :=
  { s with groups := ((archive, group), packed) :: s.groups }

def ids (s : MemoryStore) (archive : UInt8) : List UInt32 :=
  ((s.groups.filter (·.1.1 = archive)).map (·.1.2)).mergeSort.eraseReps

/-- An archive without groups cannot be listed. It is not there, as on disk it would have no index file; a
plain table of groups would give an empty list. -/
def list (s : MemoryStore) (archive : UInt8) : Except StoreError (List UInt32) :=
  match s.ids archive with
  | [] => .error (.unknownArchive archive)
  | ids => .ok ids

def read (s : MemoryStore) (archive : UInt8) (group : UInt32) : Except StoreError Bytes :=
  match s.groups.lookup (archive, group) with
  | some packed => .ok packed
  | none => .error (.unknownGroup archive group)

instance : Store Unit MemoryStore where
  layout := layout
  hasArchive _ s archive := !(s.ids archive).isEmpty
  list _ s archive := (s.list archive, s)
  read _ s archive group := (s.read archive group, s)

end MemoryStore

end Js5
