import Js5.Cache
import Js5.Envelope.Writer
import Js5.IndexFile.Writer
import Js5.ReferenceIndex.Writer
import Js5.SectorChain.Writer
import Js5.Stripes.Writer

/-!
# Writing caches

Groups are written one behind the other, those of the music archive to a file of their own if there is to be
one; then the reference index of every archive; last the index files.
-/

namespace Js5

structure GroupContent where
  archive : UInt8
  id : UInt32
  /-- The files in ascending order of their ids. -/
  files : List (UInt32 × Bytes)
  stripes : Nat
  name : Option String
  compression : Compression
  key : Option Xtea.Key
  version : Option UInt16

namespace GroupContent

variable (compress : Compression → Bytes → Bytes) (g : GroupContent)

def envelope : Bytes :=
  Envelope.pack compress g.compression (Stripes.ofFiles g.stripes (g.files.map Prod.snd)) g.key

def packed : Bytes :=
  g.envelope compress ++
    match g.version with
    | none => []
    | some v => Bytes.ofNat 2 v.toNat

def reference : ReferenceIndex.Group :=
  { ReferenceIndex.Group.blank g.id with
    nameHash := (g.name.map fun name => (nameHash name).toInt32).getD (-1)
    version := 1
    checksum := crc32 (g.envelope compress)
    files := g.files.map fun file => ⟨file.1, -1⟩ }

end GroupContent

namespace ReferenceIndex

/-- The reference index of an archive with these groups. It is wide only if an id asks for it. -/
def ofGroups (compress : Compression → Bytes → Bytes) (groups : List GroupContent) : ReferenceIndex :=
  let isLarge := fun (id : UInt32) => 0x10000 ≤ id
  let wide := groups.any fun g => isLarge g.id || g.files.any fun file => isLarge file.1
  { protocol := if wide then 7 else 6
    version := 1
    hasNames := groups.any fun g => g.name.isSome
    hasDigests := false
    hasLengths := false
    hasUncompressedChecksums := false
    groups := (groups.mergeSort fun g h => g.id ≤ h.id).map (GroupContent.reference compress) }

end ReferenceIndex

namespace Cache

structure Writer where
  data : Bytes
  music : Option Bytes
  records : List (UInt8 × UInt32 × IndexRecord)

namespace Writer

/-- Sector zero is never used. -/
def blank : Bytes := List.replicate Sector.size 0

def start (hasMusic : Bool) : Writer := ⟨blank, if hasMusic then some blank else none, []⟩

def put (layout : Layout) (w : Writer) (archive : UInt8) (group : UInt32) (packed : Bytes) : Writer :=
  let append := fun (data : Bytes) =>
    let first := data.length / Sector.size
    (data ++ SectorChain.write layout archive group packed first, UInt32.ofNat first)
  let record := fun first => (archive, group, (⟨first, UInt32.ofNat packed.length⟩ : IndexRecord))
  match w.music with
  | some music =>
    if archive = Store.musicArchive then
      let (music, first) := append music
      { w with music := some music, records := record first :: w.records }
    else
      let (data, first) := append w.data
      { w with data, records := record first :: w.records }
  | none =>
    let (data, first) := append w.data
    { w with data, records := record first :: w.records }

def recordsOf (w : Writer) (archive : UInt8) : List (UInt32 × IndexRecord) :=
  (w.records.filter (·.1 = archive)).map Prod.snd

end Writer

def archivesOf (archives : List UInt8) : List UInt8 := archives.mergeSort.eraseReps

def writer (compress : Compression → Bytes → Bytes) (hasMusic : Bool) (groups : List GroupContent) : Writer :=
  let w := groups.foldl (fun w g => w.put .js5 g.archive g.id (g.packed compress)) (.start hasMusic)
  (archivesOf (groups.map GroupContent.archive)).foldl (fun w archive =>
    let index := ReferenceIndex.ofGroups compress (groups.filter (·.archive = archive))
    let packed := Envelope.write .none index.toBytes index.toBytes.length none
    w.put .js5 Store.referenceArchive archive.toUInt32 packed) w

def directory (compress : Compression → Bytes → Bytes) (root : String) (hasMusic : Bool)
    (groups : List GroupContent) : Directory :=
  let w := writer compress hasMusic groups
  let archives := archivesOf (Store.referenceArchive :: groups.map GroupContent.archive)
  let indexFiles := archives.map fun archive =>
    ([s!"main_file_cache.idx{archive.toNat}"], some (IndexFile.ofGroups (w.recordsOf archive)))
  let music := w.music.toList.map fun music => ([DiskStore.musicName], some music)
  ⟨root, ([DiskStore.dataName .js5], some w.data) :: music ++ indexFiles⟩

end Cache

end Js5
