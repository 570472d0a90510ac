import Js5.Archive
import Js5.NameHash
import Js5.Store.Disk

/-!
# Caches

The archives that a cache has loaded are kept; one that could not be loaded is tried again.
-/

namespace Js5

inductive CacheError where
  | closed
  | store (e : StoreError)
  | archive (e : ArchiveError)
  deriving DecidableEq, Repr

namespace CacheError

def kind : CacheError → ErrorKind
  | .closed => .state
  | .store e => e.kind
  | .archive e => e.kind

def message : CacheError → String
  | .closed => "cache is closed"
  | .store e => e.message
  | .archive e => e.message

end CacheError

structure Cache (S : Type) where
  store : Option S
  archives : List (UInt8 × Archive)
  options : Options

namespace Cache

def ofStore {S : Type} (store : S) (options : Options) : Cache S := ⟨some store, [], options⟩

def openAt (d : Directory) (root : String) (options : Options) : Except CacheError (Cache DiskStore) :=
  match DiskStore.openAt d root options with
  | .ok store => .ok (ofStore store options)
  | .error e => .error (.store e)

variable {W S : Type} [Store W S]

def archive (w : W) (c : Cache S) (s : S) (id : UInt8) : Except ArchiveError Archive × Cache S × S :=
  match c.archives.lookup id with
  | some a => (.ok a, c, s)
  | none =>
    match Archive.load w s id c.options with
    | (.ok a, s) => (.ok a, { c with archives := (id, a) :: c.archives }, s)
    | (.error e, s) => (.error e, c, s)

def withArchive {α : Type} (w : W) (c : Cache S) (id : UInt8)
    (ask : Archive → S → Except ArchiveError α × S) : Except CacheError α × Cache S :=
  match c.store with
  | none => (.error .closed, c)
  | some s =>
    match c.archive w s id with
    | (.error e, c, s) => (.error (.archive e), { c with store := some s })
    | (.ok a, c, s) =>
      let (answer, s) := ask a s
      (answer.mapError .archive, { c with store := some s })

def read (w : W) (c : Cache S) (archive : UInt8) (group : UInt32) (file : UInt16) (key : Option Xtea.Key) :
    Except CacheError Bytes × Cache S :=
  c.withArchive w archive fun a s => a.read w s group file key

def readNamed (w : W) (c : Cache S) (archive : UInt8) (name : String) (file : UInt16)
    (key : Option Xtea.Key) : Except CacheError Bytes × Cache S :=
  c.withArchive w archive fun a s => a.readNamed w s (nameHash name) file key

def readGroup (w : W) (c : Cache S) (archive : UInt8) (group : UInt32) (key : Option Xtea.Key) :
    Except CacheError (List (UInt32 × Bytes)) × Cache S :=
  c.withArchive w archive fun a s => a.readGroup w s group key

def list (w : W) (c : Cache S) (archive : UInt8) : Except CacheError (List UInt32) × Cache S :=
  match c.store with
  | none => (.error .closed, c)
  | some s =>
    let (groups, s) := Store.list w s archive
    (groups.mapError .store, { c with store := some s })

omit [Store W S]

def isClosed (c : Cache S) : Bool := c.store.isNone

def close (c : Cache S) : Except CacheError Unit × Cache S :=
  if c.isClosed then (.error .closed, c) else (.ok (), { c with store := none, archives := [] })

def describe (c : Cache S) : String :=
  "Cache \x7b options: CacheOptions \x7b verify_checksums: " ++ toString c.options.verifyChecksums
    ++ ", music_data: " ++ toString c.options.musicData ++ " \x7d, .. \x7d"

end Cache

end Js5
