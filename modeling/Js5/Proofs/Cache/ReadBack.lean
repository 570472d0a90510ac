import Js5.Proofs.Cache.Content
import Js5.Proofs.Cache.Memory

/-! # Reading back a written cache -/

namespace Js5.Cache

def groupsOf (groups : List GroupContent) (archive : UInt8) : List GroupContent :=
  groups.filter (·.archive = archive)

/-- A content that fits the format: each group can be kept, no two groups stand under the same ids or have
names with the same hash in one archive, and there is room for all of it. -/
structure Fits (compress : Compression → Bytes → Bytes) (hasMusic : Bool) (groups : List GroupContent) :
    Prop where
  each : ∀ g ∈ groups, g.Fits compress
  distinct : (groups.map fun g => (g.archive, g.id)).Nodup
  names : ∀ g ∈ groups, ∀ h ∈ groups, g.archive = h.archive →
    ∀ m n, g.name = some m → h.name = some n → nameHash m = nameHash n → g = h
  counts : ∀ g ∈ groups, (ReferenceIndex.ofGroups compress (groupsOf groups g.archive)).protocol = 7 ∨
    (groupsOf groups g.archive).length < 2 ^ 16 ∧ ∀ h ∈ groupsOf groups g.archive, h.files.length < 2 ^ 16
  indexes : ∀ g ∈ groups, (packedIndex compress groups g.archive).length < 2 ^ 24
  sectors : ∀ archive, ((writer compress hasMusic groups).file archive).length ≤ Sector.size * 2 ^ 24

/-- A group in the music file is within reach of a cache that uses this file. -/
def InReach (hasMusic : Bool) (options : Options) (g : GroupContent) : Prop :=
  g.archive = Store.musicArchive → hasMusic = true → options.musicData = true

/-- Replies that give back the groups that are within reach, and nothing but what was put into the cache. -/
structure GivesBack (reach : GroupContent → Prop) (groups : List GroupContent) (reply : Call → Answer) :
    Prop where
  group : ∀ g ∈ groups, reach g → reply (.readGroup g.archive g.id g.key) = .files (.ok g.files)
  /-- If there is only one file, it is the one that is read whatever is asked for. -/
  file : ∀ g ∈ groups, reach g → ∀ file ∈ g.files,
    ∀ id : UInt16, id.toUInt32 = file.1 ∨ g.files = [file] →
    reply (.read g.archive g.id id g.key) = .bytes (.ok file.2)
  named : ∀ g ∈ groups, ∀ name, g.name = some name → ∀ id key,
    reply (.readNamed g.archive name id key) = reply (.read g.archive g.id id key)
  list : ∀ g ∈ groups, ∃ ids, reply (.list g.archive) = .groups (.ok ids) ∧ ids.Pairwise (· < ·) ∧
    ∀ id, id ∈ ids ↔ ∃ h ∈ groups, h.archive = g.archive ∧ h.id = id
  archives : ∃ ids, reply (.list Store.referenceArchive) = .groups (.ok ids) ∧ ids.Pairwise (· < ·) ∧
    ∀ id, id ∈ ids ↔ ∃ g ∈ groups, g.archive.toUInt32 = id
  noFile : ∀ g ∈ groups, reach g → 2 ≤ g.files.length →
    ∀ id : UInt16, (∀ file ∈ g.files, file.1 ≠ id.toUInt32) →
    reply (.read g.archive g.id id g.key) =
      .bytes (.error (.archive (.stripes (.fileOutOfRange id.toUInt32 g.files.length))))
  /-- To groups without a name the index gives the hash `0xffffffff`. -/
  noName : ∀ g ∈ groups, ∀ name, nameHash name ≠ 0xffffffff →
    (∀ h ∈ groups, h.archive = g.archive → ∀ n, h.name = some n → nameHash n ≠ nameHash name) →
      ∀ id key,
      reply (.readNamed g.archive name id key) =
        .bytes (.error (.archive (.unknownName g.archive (nameHash name))))
  noGroup : ∀ g ∈ groups, ∀ id, (∀ h ∈ groups, h.archive = g.archive → h.id ≠ id) → ∀ key,
    reply (.readGroup g.archive id key) = .files (.error (.archive (.unknownGroup g.archive id))) ∧
    ∀ file, reply (.read g.archive id file key) = .bytes (.error (.archive (.unknownGroup g.archive id)))
  noArchive : ∀ archive, archive ≠ Store.referenceArchive → (∀ g ∈ groups, g.archive ≠ archive) →
    ∀ id key,
    reply (.readGroup archive id key) = .files (.error (.archive (.store (.unknownArchive archive)))) ∧
    ∀ file, reply (.read archive id file key) = .bytes (.error (.archive (.store (.unknownArchive archive))))

theorem mem_groupsOf {groups : List GroupContent} {archive : UInt8} {g : GroupContent} :
    g ∈ groupsOf groups archive ↔ g ∈ groups ∧ g.archive = archive := by
  unfold groupsOf
  simp

/-! ## Room -/

theorem nodup_archivesOf (archives : List UInt8) : (archivesOf archives).Nodup := by
  have hs : archives.mergeSort.Pairwise fun a b => decide (a ≤ b) = true := by
    apply List.pairwise_mergeSort
    · intro a b c hab hbc
      simpa using UInt8.le_trans (of_decide_eq_true hab) (of_decide_eq_true hbc)
    · intro a b
      simpa using UInt8.le_total a b
  refine (pairwise_eraseReps (fun a b hab hba => ?_) hs).imp And.right
  exact UInt8.le_antisymm (of_decide_eq_true hab) (of_decide_eq_true hba)

section
variable {compress : Compression → Bytes → Bytes} {hasMusic : Bool} {groups : List GroupContent}

theorem packedIndex_eq (archive : UInt8) : packedIndex compress groups archive =
    Envelope.write .none (ReferenceIndex.ofGroups compress (groupsOf groups archive)).toBytes
      (ReferenceIndex.ofGroups compress (groupsOf groups archive)).toBytes.length none := rfl

theorem length_packedIndex (archive : UInt8) : (packedIndex compress groups archive).length =
    Envelope.headerSize + (ReferenceIndex.ofGroups compress (groupsOf groups archive)).toBytes.length := by
  rw [packedIndex_eq, Envelope.length_write]
  simp [Compression.lengthField]

variable (h : Fits compress hasMusic groups)
include h

theorem Fits.nodup_entries : ((entries compress groups).map fun e => (e.1, e.2.1)).Nodup := by
  unfold entries
  rw [List.map_append, List.map_map, List.map_map, List.nodup_append]
  refine ⟨h.distinct, ?_, ?_⟩
  · apply List.Nodup.map ?_ (nodup_archivesOf _)
    intro a b hab
    exact UInt8.toUInt32_inj.mp (Prod.ext_iff.mp hab).2
  · intro p hp q hq he
    obtain ⟨g, hg, rfl⟩ := List.mem_map.mp hp
    obtain ⟨a, -, rfl⟩ := List.mem_map.mp hq
    exact (h.each g hg).archive (Prod.ext_iff.mp he).1

theorem Fits.roomy : (writer compress hasMusic groups).Roomy (entries compress groups) where
  distinct := h.nodup_entries
  packed e he := by
    unfold entries at he
    rw [List.mem_append, List.mem_map, List.mem_map] at he
    rcases he with ⟨g, hg, rfl⟩ | ⟨archive, ha, rfl⟩
    · exact ⟨Nat.lt_of_le_of_lt (Nat.zero_le _) (g.le_length_packed compress), (h.each g hg).packed⟩
    · obtain ⟨g, hg, rfl⟩ := List.mem_map.mp (mem_archivesOf.mp ha)
      refine ⟨?_, h.indexes g hg⟩
      rw [length_packedIndex]
      unfold Envelope.headerSize
      omega
  sectors := h.sectors

theorem Fits.indexable {g : GroupContent} (hg : g ∈ groups) :
    ReferenceIndex.Indexable compress (groupsOf groups g.archive) where
  each g' hg' := h.each g' (mem_groupsOf.mp hg').1
  nodup := by
    have hd := ((List.filter_sublist (p := fun g' => decide (g'.archive = g.archive)) (l := groups)).map
      fun g => (g.archive, g.id)).nodup h.distinct
    apply List.Nodup.of_map (fun id => (g.archive, id))
    rw [List.map_map]
    convert hd using 1
    apply List.map_congr_left
    intro g' hg'
    rw [← (mem_groupsOf.mp hg').2]
    rfl
  names a ha b hb := by
    obtain ⟨ha, haa⟩ := mem_groupsOf.mp ha
    obtain ⟨hb, hba⟩ := mem_groupsOf.mp hb
    exact h.names a ha b hb (haa.trans hba.symm)
  counts := h.counts g hg
  length := by
    have := h.indexes g hg
    rw [length_packedIndex] at this
    unfold Envelope.headerSize at this
    omega

/-! ## Archives -/

theorem Fits.openIndex {g : GroupContent} (hg : g ∈ groups) :
    Archive.openIndex g.archive (.ok (packedIndex compress groups g.archive)) =
      .ok (ReferenceIndex.ofGroups compress (groupsOf groups g.archive)) := by
  have hi := h.indexable hg
  have hl : (ReferenceIndex.ofGroups compress (groupsOf groups g.archive)).toBytes.length < 2 ^ 31 :=
    Nat.lt_trans hi.length (by decide)
  have hd := Envelope.decode_write_none hl []
  rw [List.append_nil, ← packedIndex_eq] at hd
  have hb := ReferenceIndex.ofBytes_toBytes hi.fits []
  rw [List.append_nil] at hb
  unfold Archive.openIndex
  simp only [hd, Except.mapError, bind, Except.bind, hb]

variable {root : String} (hr : Directory.IsRoot root) (options : Options)
include hr

theorem Fits.catalogue {g : GroupContent} (hg : g ∈ groups) :
    Catalogue.ofStore (directory compress root hasMusic groups)
        (storeOf compress root hasMusic groups options) g.archive =
      ⟨.js5, true, .ok (packedIndex compress groups g.archive)⟩ := by
  have ha : g.archive ∈ indexed groups := (mem_indexed groups).mpr (.inr ⟨g, hg, rfl⟩)
  have he : (Store.referenceArchive, g.archive.toUInt32, packedIndex compress groups g.archive) ∈
      entries compress groups := by
    unfold entries
    apply List.mem_append_right
    exact List.mem_map_of_mem (mem_archivesOf.mpr (List.mem_map_of_mem hg))
  have hread := read_storeOf options hr h.roomy he (fun hm => by cases hm)
  have hhas : (storeOf compress root hasMusic groups options).hasArchive
      (directory compress root hasMusic groups)
      g.archive = true := (hasArchive_storeOf options hr g.archive).trans (decide_eq_true ha)
  unfold Catalogue.ofStore
  exact congr (congrArg (Catalogue.mk .js5) hhas) hread

def archiveOf (compress : Compression → Bytes → Bytes) (groups : List GroupContent) (options : Options)
    (archive : UInt8) : Archive :=
  ⟨archive, some (ReferenceIndex.ofGroups compress (groupsOf groups archive)), options.verifyChecksums⟩

theorem Fits.load {g : GroupContent} (hg : g ∈ groups) :
    (Catalogue.ofStore (directory compress root hasMusic groups)
        (storeOf compress root hasMusic groups options) g.archive).load options g.archive =
      .ok (archiveOf compress groups options g.archive) := by
  have ha : g.archive ≠ Store.referenceArchive := (h.each g hg).archive
  rw [h.catalogue hr options hg]
  unfold Catalogue.load archiveOf
  simp [ha, h.openIndex hg, Except.map]

/-! ## Groups -/

theorem Fits.read_packed {g : GroupContent} (hg : g ∈ groups)
    (hm : InReach hasMusic options g) :
    (Store.read (directory compress root hasMusic groups) (storeOf compress root hasMusic groups options)
      g.archive g.id).1 = .ok (g.packed compress) := by
  have he : (g.archive, g.id, g.packed compress) ∈ entries compress groups := by
    unfold entries
    apply List.mem_append_left
    exact List.mem_map_of_mem (f := fun g : GroupContent => (g.archive, g.id, g.packed compress)) hg
  have hread := read_storeOf options hr h.roomy he hm
  exact hread

omit hr in
theorem Fits.readFrom {α : Type} {g : GroupContent} (hg : g ∈ groups)
    (f : Option ReferenceIndex.Group → Bytes → Except ArchiveError α) :
    (archiveOf compress groups options g.archive).readFrom g.id g.key f (.ok (g.packed compress)) =
      f (some (g.reference compress)) g.data := by
  have hget := (h.indexable hg).get?_ofGroups (mem_groupsOf.mpr ⟨hg, rfl⟩)
  unfold Archive.readFrom Archive.entry archiveOf
  simp only [hget]
  show (Archive.unpack _ _ _ _ >>= f _) = _
  rw [(h.each g hg).unpack rfl rfl rfl]
  rfl

omit h hr in
theorem readFrom_of_ne {α : Type} {archive : UInt8} {id : UInt32}
    (hid : ∀ g ∈ groups, g.archive = archive → g.id ≠ id) (key : Option Xtea.Key)
    (f : Option ReferenceIndex.Group → Bytes → Except ArchiveError α) (packed : Except StoreError Bytes) :
    (archiveOf compress groups options archive).readFrom id key f packed =
      .error (.unknownGroup archive id) := by
  have hget : (ReferenceIndex.ofGroups compress (groupsOf groups archive)).get? id = none := by
    apply ReferenceIndex.get?_ofGroups_eq_none
    intro g hg
    exact hid g (mem_groupsOf.mp hg).1 (mem_groupsOf.mp hg).2
  unfold Archive.readFrom Archive.entry archiveOf
  simp only [hget]
  rfl

end

/-! ## Answers -/

def replyOf (compress : Compression → Bytes → Bytes) (root : String) (hasMusic : Bool)
    (groups : List GroupContent) (options : Options) : Call → Answer :=
  answer (directory compress root hasMusic groups) (storeOf compress root hasMusic groups options) options

section
variable {compress : Compression → Bytes → Bytes} {hasMusic : Bool} {groups : List GroupContent}
  (h : Fits compress hasMusic groups) {root : String} (hr : Directory.IsRoot root) (options : Options)
include h hr

theorem Fits.reply_readGroup {g : GroupContent} (hg : g ∈ groups) (hm : InReach hasMusic options g) :
    replyOf compress root hasMusic groups options (.readGroup g.archive g.id g.key) =
      .files (.ok g.files) := by
  unfold replyOf
  rw [answer_readGroup, h.load hr options hg, h.read_packed hr options hg hm]
  simp only [Except.bind, h.readFrom options hg, Archive.filesOf, (h.each g hg).split]
  rfl

theorem Fits.reply_read {g : GroupContent} (hg : g ∈ groups)
    (hm : InReach hasMusic options g) {file : UInt32 × Bytes}
    (hf : file ∈ g.files) {id : UInt16} (hid : id.toUInt32 = file.1 ∨ g.files = [file]) :
    replyOf compress root hasMusic groups options (.read g.archive g.id id g.key) = .bytes (.ok file.2) := by
  have hfile := (h.each g hg).file hf
  have hread : Stripes.file g.data (g.reference compress).fileIds id.toUInt32 = .ok file.2 := by
    rcases hid with hid | hone
    · rw [hid]
      exact hfile
    · rw [GroupContent.fileIds_reference, hone] at hfile ⊢
      exact hfile
  unfold replyOf
  rw [answer_read, h.load hr options hg, h.read_packed hr options hg hm]
  simp only [Except.bind, h.readFrom options hg, Archive.fileOf, hread]
  rfl

theorem Fits.reply_of_noFile {g : GroupContent} (hg : g ∈ groups) (hm : InReach hasMusic options g)
    (hl : 2 ≤ g.files.length) {id : UInt16} (hid : ∀ file ∈ g.files, file.1 ≠ id.toUInt32) :
    replyOf compress root hasMusic groups options (.read g.archive g.id id g.key) =
      .bytes (.error (.archive (.stripes (.fileOutOfRange id.toUInt32 g.files.length)))) := by
  unfold replyOf
  rw [answer_read, h.load hr options hg, h.read_packed hr options hg hm]
  simp only [Except.bind, h.readFrom options hg, Archive.fileOf, GroupContent.file_of_notMem compress hl hid]
  rfl

theorem Fits.reply_readNamed {g : GroupContent} (hg : g ∈ groups) {name : String} (hn : g.name = some name)
    (id : UInt16) (key : Option Xtea.Key) :
    replyOf compress root hasMusic groups options (.readNamed g.archive name id key) =
      replyOf compress root hasMusic groups options (.read g.archive g.id id key) := by
  have hnamed := (h.indexable hg).named?_ofGroups (mem_groupsOf.mpr ⟨hg, rfl⟩) hn
  have hresolve : (Catalogue.ofStore (directory compress root hasMusic groups)
      (storeOf compress root hasMusic groups options) g.archive).resolve options g.archive name =
        .ok g.id := by
    unfold Catalogue.resolve Archive.groupByName
    rw [h.load hr options hg]
    simp only [Except.bind, Option.bind, archiveOf, hnamed]
    rfl
  unfold replyOf
  rw [answer_readNamed, hresolve]
  rfl

theorem Fits.reply_of_noName {g : GroupContent} (hg : g ∈ groups) {name : String}
    (hh : nameHash name ≠ 0xffffffff)
    (hn : ∀ h ∈ groups, h.archive = g.archive → ∀ n, h.name = some n → nameHash n ≠ nameHash name)
    (id : UInt16) (key : Option Xtea.Key) :
    replyOf compress root hasMusic groups options (.readNamed g.archive name id key) =
      .bytes (.error (.archive (.unknownName g.archive (nameHash name)))) := by
  have hnone :
      (ReferenceIndex.ofGroups compress (groupsOf groups g.archive)).named? (nameHash name) = none := by
    apply ReferenceIndex.named?_ofGroups_eq_none hh
    intro g' hg'
    exact hn g' (mem_groupsOf.mp hg').1 (mem_groupsOf.mp hg').2
  unfold replyOf
  rw [answer_readNamed]
  unfold Catalogue.resolve Archive.groupByName
  rw [h.load hr options hg]
  simp only [Except.bind, Option.bind, archiveOf, hnone]
  rfl

theorem Fits.reply_of_noGroup {g : GroupContent} (hg : g ∈ groups) {id : UInt32}
    (hid : ∀ h ∈ groups, h.archive = g.archive → h.id ≠ id) (key : Option Xtea.Key) :
    replyOf compress root hasMusic groups options (.readGroup g.archive id key) =
        .files (.error (.archive (.unknownGroup g.archive id))) ∧
      ∀ file, replyOf compress root hasMusic groups options (.read g.archive id file key) =
        .bytes (.error (.archive (.unknownGroup g.archive id))) := by
  unfold replyOf
  constructor
  · rw [answer_readGroup, h.load hr options hg]
    simp only [Except.bind, readFrom_of_ne options hid]
    rfl
  · intro file
    rw [answer_read, h.load hr options hg]
    simp only [Except.bind, readFrom_of_ne options hid]
    rfl

omit h in
theorem reply_of_noArchive {archive : UInt8} (ha : archive ≠ Store.referenceArchive)
    (hn : ∀ g ∈ groups, g.archive ≠ archive) (id : UInt32) (key : Option Xtea.Key) :
    replyOf compress root hasMusic groups options (.readGroup archive id key) =
        .files (.error (.archive (.store (.unknownArchive archive)))) ∧
      ∀ file, replyOf compress root hasMusic groups options (.read archive id file key) =
        .bytes (.error (.archive (.store (.unknownArchive archive)))) := by
  have hi : archive ∉ indexed groups := by
    rw [mem_indexed, not_or]
    exact ⟨ha, fun ⟨g, hg, he⟩ => hn g hg he⟩
  have hload : (Catalogue.ofStore (directory compress root hasMusic groups)
      (storeOf compress root hasMusic groups options) archive).load options archive =
        .error (.store (.unknownArchive archive)) := by
    have hhas : Store.hasArchive (directory compress root hasMusic groups)
        (storeOf compress root hasMusic groups options) archive = false :=
      (hasArchive_storeOf options hr archive).trans (decide_eq_false hi)
    unfold Catalogue.load Catalogue.ofStore
    rw [hhas]
    rfl
  unfold replyOf
  constructor
  · rw [answer_readGroup, hload]
    rfl
  · intro file
    rw [answer_read, hload]
    rfl

theorem Fits.reply_list {archive : UInt8} (ha : archive ∈ indexed groups) :
    ∃ ids, replyOf compress root hasMusic groups options (.list archive) = .groups (.ok ids) ∧
      ids.Pairwise (· < ·) ∧
        ∀ id, id ∈ ids ↔ ∃ e ∈ entries compress groups, e.1 = archive ∧ e.2.1 = id := by
  obtain ⟨ids, hl, hp, hm⟩ := list_storeOf options hr h.roomy ha
  refine ⟨ids, ?_, hp, hm⟩
  unfold replyOf
  rw [answer_list]
  exact congrArg (fun l => Answer.groups (Except.mapError CacheError.store l)) hl

omit h hr in
theorem exists_entry_iff {archive : UInt8} (ha : archive ≠ Store.referenceArchive) (id : UInt32) :
    (∃ e ∈ entries compress groups, e.1 = archive ∧ e.2.1 = id) ↔
      ∃ g ∈ groups, g.archive = archive ∧ g.id = id := by
  unfold entries
  simp only [List.mem_append, List.mem_map]
  constructor
  · intro ⟨e, he, hea, hid⟩
    rcases he with ⟨g, hg, rfl⟩ | ⟨other, -, rfl⟩
    · exact ⟨g, hg, hea, hid⟩
    · exact absurd hea.symm ha
  · intro ⟨g, hg, hga, hid⟩
    exact ⟨_, .inl ⟨g, hg, rfl⟩, hga, hid⟩

omit hr in
theorem Fits.exists_reference_iff (id : UInt32) :
    (∃ e ∈ entries compress groups, e.1 = Store.referenceArchive ∧ e.2.1 = id) ↔
      ∃ g ∈ groups, g.archive.toUInt32 = id := by
  unfold entries
  simp only [List.mem_append, List.mem_map, mem_archivesOf]
  constructor
  · intro ⟨e, he, hea, hid⟩
    rcases he with ⟨g, hg, rfl⟩ | ⟨archive, ⟨g, hg, rfl⟩, rfl⟩
    · exact absurd hea (h.each g hg).archive
    · exact ⟨g, hg, hid⟩
  · intro ⟨g, hg, hid⟩
    exact ⟨_, .inr ⟨g.archive, ⟨g, hg, rfl⟩, rfl⟩, rfl, hid⟩

theorem Fits.givesBack :
    GivesBack (InReach hasMusic options) groups (replyOf compress root hasMusic groups options) where
  group g hg hm := h.reply_readGroup hr options hg hm
  file g hg hm file hf id hid := h.reply_read hr options hg hm hf hid
  named g hg name hn id key := h.reply_readNamed hr options hg hn id key
  list g hg := by
    obtain ⟨ids, hl, hp, hm⟩ := h.reply_list hr options ((mem_indexed groups).mpr (.inr ⟨g, hg, rfl⟩))
    refine ⟨ids, hl, hp, fun id => ?_⟩
    rw [hm, exists_entry_iff (h.each g hg).archive]
  archives := by
    obtain ⟨ids, hl, hp, hm⟩ := h.reply_list hr options ((mem_indexed groups).mpr (.inl rfl))
    refine ⟨ids, hl, hp, fun id => ?_⟩
    rw [hm, h.exists_reference_iff]
  noFile g hg hm hl id hid := h.reply_of_noFile hr options hg hm hl hid
  noName g hg name hh hn id key := h.reply_of_noName hr options hg hh hn id key
  noGroup g hg id hid key := h.reply_of_noGroup hr options hg hid key
  noArchive archive ha hn id key := reply_of_noArchive hr options ha hn id key

end

theorem GivesBack.congr {reach : GroupContent → Prop} {groups : List GroupContent}
    {reply reply' : Call → Answer} (h : GivesBack reach groups reply)
    (hr : ∀ call, call ≠ .close → reply' call = reply call) :
    GivesBack reach groups reply' where
  group g hg hm := by
    rw [hr _ (by simp), h.group g hg hm]
  file g hg hm file hf id hid := by
    rw [hr _ (by simp), h.file g hg hm file hf id hid]
  named g hg name hn id key := by
    rw [hr _ (by simp), hr _ (by simp), h.named g hg name hn id key]
  list g hg := by
    rw [hr _ (by simp)]
    exact h.list g hg
  archives := by
    rw [hr _ (by simp)]
    exact h.archives
  noFile g hg hm hl id hid := by
    rw [hr _ (by simp), h.noFile g hg hm hl id hid]
  noName g hg name hh hn id key := by
    rw [hr _ (by simp), h.noName g hg name hh hn id key]
  noGroup g hg id hid key := by
    rw [hr _ (by simp)]
    refine ⟨(h.noGroup g hg id hid key).1, fun file => ?_⟩
    rw [hr _ (by simp)]
    exact (h.noGroup g hg id hid key).2 file
  noArchive archive ha hn id key := by
    rw [hr _ (by simp)]
    refine ⟨(h.noArchive archive ha hn id key).1, fun file => ?_⟩
    rw [hr _ (by simp)]
    exact (h.noArchive archive ha hn id key).2 file

/-- **Reading back a written cache.** A cache opens over the directory to which a content that fits the
format was written, and until it is closed gives back the content, whatever was asked of it before. -/
theorem open_read_back {compress : Compression → Bytes → Bytes} {hasMusic : Bool} {groups : List GroupContent}
    (h : Fits compress hasMusic groups) {root : String} (hr : Directory.IsRoot root) (options : Options) :
    let d := directory compress root hasMusic groups
    ∃ c, openAt d root options = .ok c ∧ ∀ before : List Call, .close ∉ before →
      GivesBack (InReach hasMusic options) groups fun call => ((c.after d before).ask d call).1 := by
  intro d
  let s := storeOf compress root hasMusic groups options
  refine ⟨ofStore s options, ?_, fun before hb => ?_⟩
  · unfold openAt
    rw [openAt_directory options hr h.roomy]
  · apply (h.givesBack hr options).congr
    intro call hc
    have hs : Store.Steady d s := s.steady d
    exact (((remembers_ofStore d s options).after hs hb).ask hs hc).1

def sampleCompress : Compression → Bytes → Bytes
  | .gzip, _ => [0x1f, 0x8b, 0x08, 0, 0, 0, 0, 0, 0x02, 0xff, 0xf3, 0x2f, 0x48, 0xcd, 0x0b, 0x0a, 0x36,
    0x02, 0x00, 0xeb, 0x0a, 0x5f, 0x98, 0x07, 0, 0, 0]
  | _, data => data

def sampleKey : Xtea.Key := ⟨0x00112233, 0x44556677, 0x8899aabb, 0xccddeeff⟩

def sampleGroups : List GroupContent :=
  [⟨3, 7, [(0, [1, 2, 3]), (2, [4, 5])], 2, some "title", .none, none, none⟩,
    ⟨40, 70000, [(5, [0x4f, 0x70, 0x65, 0x6e, 0x52, 0x53, 0x32])], 1, none, .gzip, some sampleKey,
      some 0x1234⟩]

theorem fits_sampleGroups : Fits sampleCompress true sampleGroups where
  each g hg := by
    unfold sampleGroups at hg
    simp only [List.mem_cons, List.not_mem_nil, or_false] at hg
    rcases hg with rfl | rfl
    · refine ⟨by decide, by decide, by decide, by decide, by decide, by decide, ?_, ?_, by decide,
        by decide +kernel, rfl⟩
      · intro n hn
        cases hn
        decide
      · intro k hk
        cases hk
    · refine ⟨by decide, by decide, by decide, by decide, by decide, by decide, ?_, ?_, by decide,
        by decide +kernel, ?_⟩
      · intro n hn
        cases hn
      · intro k hk
        cases hk
        decide
      · show Envelope.decompress .gzip _ 7 = .ok _
        decide +kernel
  distinct := by decide
  names g hg h hh ha m n hm hn _ := by
    unfold sampleGroups at hg hh
    simp only [List.mem_cons, List.not_mem_nil, or_false] at hg hh
    rcases hg with rfl | rfl <;> rcases hh with rfl | rfl
    · rfl
    · cases hn
    · cases hm
    · rfl
  counts := by decide +kernel
  indexes := by decide +kernel
  sectors archive := by
    have ha : archivesOf (sampleGroups.map GroupContent.archive) = [3, 40] := by
      unfold archivesOf
      rw [List.mergeSort_of_pairwise (by decide)]
      decide
    apply Writer.length_file_le
    · unfold writer
      rw [ha]
      decide +kernel
    · unfold writer
      rw [ha]
      decide +kernel

/-- A group from the music file after a call that fails, and a file by the name of its group. -/
theorem open_read_back_sample :
    let d := directory sampleCompress "/cache" true sampleGroups
    Fits sampleCompress true sampleGroups ∧ Directory.IsRoot "/cache" ∧
      ∃ c, openAt d "/cache" {} = .ok c ∧
        ((c.after d [.read 3 8 0 none]).ask d (.readGroup 40 70000 (some sampleKey))).1 =
          .files (.ok [(5, [0x4f, 0x70, 0x65, 0x6e, 0x52, 0x53, 0x32])]) ∧
        (c.ask d (.readNamed 3 "title" 2 none)).1 = .bytes (.ok [4, 5]) := by
  intro d
  have hr : Directory.IsRoot "/cache" := ⟨by decide, by decide, by decide⟩
  obtain ⟨c, ho, hc⟩ := open_read_back fits_sampleGroups hr {}
  have hmusic := (hc [.read 3 8 0 none] (by decide)).group _
    (List.mem_cons_of_mem _ (List.mem_singleton.mpr rfl))
    (fun _ _ => rfl)
  have htitle := (hc [] (by decide)).named _ (List.mem_cons_self ..) "title" rfl 2 none
  have hfile := (hc [] (by decide)).file _ (List.mem_cons_self ..) (fun h _ => absurd h (by decide))
    (2, [4, 5])
    (by decide) 2 (.inl rfl)
  exact ⟨fits_sampleGroups, hr, c, ho, hmusic, htitle.trans hfile⟩

end Js5.Cache
