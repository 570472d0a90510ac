import Js5.SectorChain
import Js5.Store
import Js5.Store.IndexFiles

/-!
# Stores on disk

The data files are taken as they are when the store is opened; index files are read when they are needed.
-/

namespace Js5

structure DiskStore where
  root : String
  layout : Layout
  data : Array UInt8
  /-- The data file of the music archive, if it has bytes of its own. -/
  music : Option (Array UInt8)
  index : IndexFiles

namespace DiskStore

def dataName : Layout → String
  | .js5 => "main_file_cache.dat2"
  | .legacy => "main_file_cache.dat"

def musicName : String := "main_file_cache.dat2m"

/-- The content of a data file. One that has no bytes counts as none. -/
def dataFile (d : Directory) (path : String) : Option (Array UInt8) :=
  match d.find path with
  | .file [] => none
  | .file bytes => some bytes.toArray
  | _ => none

def layoutOf (d : Directory) (root : String) : Option Layout :=
  if d.isFile (joinPath root (dataName .js5)) then some .js5
  else if d.isFile (joinPath root (dataName .legacy)) then some .legacy
  else none

/-- The index files to start with: a cache of the newer layout has to have its reference archive. -/
def openIndex (d : Directory) (root : String) : Layout → Except StoreError IndexFiles
  | .legacy => .ok (.ofRoot root)
  | .js5 =>
    match (IndexFiles.ofRoot root).load d Store.referenceArchive with
    | (.ok _, index) => .ok index
    | (.error (.unknownArchive _), _) => .error (.cacheNotFound root)
    | (.error e, _) => .error e

def openAt (d : Directory) (root : String) (options : Options) : Except StoreError DiskStore :=
  if !d.isFolder root then .error (.cacheNotFound root)
  else
    match layoutOf d root with
    | none => .error (.cacheNotFound root)
    | some layout => do
      let index ← openIndex d root layout
      let data := (dataFile d (joinPath root (dataName layout))).getD #[]
      let music := if options.musicData then dataFile d (joinPath root musicName) else none
      return ⟨root, layout, data, music, index⟩

def dataFor (s : DiskStore) (archive : UInt8) : Array UInt8 :=
  match s.music with
  | some music => if archive = Store.musicArchive then music else s.data
  | none => s.data

def readChain (s : DiskStore) (archive : UInt8) (group : UInt32) (r : IndexRecord) :
    Except StoreError Bytes :=
  SectorChain.Source.read ⟨s.dataFor archive, s.layout, archive, group⟩ r

def hasArchive (d : Directory) (s : DiskStore) (archive : UInt8) : Bool := s.index.hasArchive d archive

def lookup (d : Directory) (s : DiskStore) (archive : UInt8) (group : UInt32) :
    Except StoreError IndexRecord × DiskStore :=
  let (r, index) := s.index.lookup d archive group
  (r, { s with index })

def list (d : Directory) (s : DiskStore) (archive : UInt8) : Except StoreError (List UInt32) × DiskStore :=
  let (groups, index) := s.index.list d archive
  (groups, { s with index })

def read (d : Directory) (s : DiskStore) (archive : UInt8) (group : UInt32) :
    Except StoreError Bytes × DiskStore :=
  match s.lookup d archive group with
  | (.error e, s) => (.error e, s)
  | (.ok r, s) => (s.readChain archive group r, s)

instance : Store Directory DiskStore where
  layout := layout
  hasArchive := hasArchive
  list := list
  read := read

end DiskStore

end Js5
