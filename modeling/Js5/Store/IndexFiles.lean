import Js5.Directory
import Js5.IndexFile

/-!
# The index files of a cache

An index file that has been read is kept, whatever becomes of it; one that could not be read is tried again.
-/

namespace Js5

structure IndexFiles where
  root : String
  loaded : List (UInt8 × IndexFile)

namespace IndexFiles

def ofRoot (root : String) : IndexFiles := ⟨root, []⟩

def path (s : IndexFiles) (archive : UInt8) : String :=
  joinPath s.root s!"main_file_cache.idx{archive.toNat}"

def hasArchive (d : Directory) (s : IndexFiles) (archive : UInt8) : Bool :=
  (s.loaded.lookup archive).isSome || d.isFile (s.path archive)

def readFile (d : Directory) (s : IndexFiles) (archive : UInt8) : Except StoreError IndexFile :=
  match d.find (s.path archive) with
  | .file bytes => IndexFile.parse archive bytes
  | .absent => .error (.unknownArchive archive)
  | .folder | .refused => .error .io

def load (d : Directory) (s : IndexFiles) (archive : UInt8) : Except StoreError IndexFile × IndexFiles :=
  match s.loaded.lookup archive with
  | some f => (.ok f, s)
  | none =>
    match s.readFile d archive with
    | .ok f => (.ok f, { s with loaded := (archive, f) :: s.loaded })
    | .error e => (.error e, s)

def lookup (d : Directory) (s : IndexFiles) (archive : UInt8) (group : UInt32) :
    Except StoreError IndexRecord × IndexFiles :=
  match s.load d archive with
  | (.error e, s) => (.error e, s)
  | (.ok f, s) =>
    match f.get? group with
    | some r => (.ok r, s)
    | none => (.error (.unknownGroup archive group), s)

def list (d : Directory) (s : IndexFiles) (archive : UInt8) : Except StoreError (List UInt32) × IndexFiles :=
  let (f, s) := s.load d archive
  (f.map IndexFile.groups, s)

end IndexFiles

end Js5
