import Js5.Cache.Writer
import Js5.Proofs.Directory
import Js5.Proofs.IndexFile
import Js5.Proofs.Repeats
import Js5.Proofs.SectorChain.Write
import Js5.Proofs.Store.DataFiles
import Js5.Proofs.Store.Steady
import Mathlib.Data.List.Nodup

/-!
# The layout of a written cache

Writing only appends to the data files, so what is written stays where it is, and its record says where.
-/

namespace Js5.Cache

abbrev Entry := UInt8 × UInt32 × Bytes

namespace Writer

def file (w : Writer) (archive : UInt8) : Bytes :=
  match w.music with
  | some music => if archive = Store.musicArchive then music else w.data
  | none => w.data

theorem file_of_ne (w : Writer) {archive : UInt8} (h : archive ≠ Store.musicArchive) :
    w.file archive = w.data := by
  unfold file
  cases w.music with
  | none => rfl
  | some music => exact if_neg h

theorem file_music {w : Writer} {music : Bytes} (h : w.music = some music) :
    w.file Store.musicArchive = music := by
  unfold file
  rw [h]
  rfl

theorem length_file_le {w : Writer} {n : Nat} (hd : w.data.length ≤ n)
    (hm : w.music.all fun m => decide (m.length ≤ n)) (archive : UInt8) : (w.file archive).length ≤ n := by
  by_cases ha : archive = Store.musicArchive
  · subst ha
    unfold file
    cases hw : w.music with
    | none => exact hd
    | some music =>
      rw [hw] at hm
      exact of_decide_eq_true hm
  · rw [file_of_ne w ha]
    exact hd

def recordAt (file packed : Bytes) : IndexRecord :=
  ⟨UInt32.ofNat (file.length / Sector.size), UInt32.ofNat packed.length⟩

variable (layout : Layout) (w : Writer) (archive other : UInt8) (group : UInt32) (packed : Bytes)

theorem records_put : (w.put layout archive group packed).records =
    (archive, group, recordAt (w.file archive) packed) :: w.records := by
  unfold put file
  cases w.music with
  | none => rfl
  | some music =>
    by_cases ha : archive = Store.musicArchive
    · simp only [if_pos ha]
      rfl
    · simp only [if_neg ha]
      rfl

theorem isSome_music_put : (w.put layout archive group packed).music.isSome = w.music.isSome := by
  unfold put
  cases w.music with
  | none => rfl
  | some music =>
    by_cases ha : archive = Store.musicArchive
    · simp only [if_pos ha, Option.isSome_some]
    · simp only [if_neg ha, Option.isSome_some]

theorem file_put_self : (w.put layout archive group packed).file archive =
    w.file archive ++ SectorChain.write layout archive group packed
      ((w.file archive).length / Sector.size) := by
  unfold put file
  cases w.music with
  | none => rfl
  | some music =>
    by_cases ha : archive = Store.musicArchive
    · simp only [if_pos ha]
    · simp only [if_neg ha]

theorem file_put :
    ∃ sectors : Bytes, (w.put layout archive group packed).file other = w.file other ++ sectors ∧
    Sector.size ∣ sectors.length := by
  have hw : ∀ first, Sector.size ∣ (SectorChain.write layout archive group packed first).length := by
    intro first
    rw [SectorChain.length_write]
    exact Nat.dvd_mul_right ..
  unfold put file
  cases w.music with
  | none => exact ⟨_, rfl, hw _⟩
  | some music =>
    by_cases ha : archive = Store.musicArchive
    · by_cases ho : other = Store.musicArchive
      · simp only [if_pos ha, if_pos ho]
        exact ⟨_, rfl, hw _⟩
      · simp only [if_pos ha, if_neg ho]
        exact ⟨[], (List.append_nil _).symm, Nat.dvd_zero _⟩
    · by_cases ho : other = Store.musicArchive
      · simp only [if_neg ha, if_pos ho]
        exact ⟨[], (List.append_nil _).symm, Nat.dvd_zero _⟩
      · simp only [if_neg ha, if_neg ho]
        exact ⟨_, rfl, hw _⟩

def Placed (layout : Layout) (w : Writer) (e : Entry) : Prop :=
  ∃ (first : Nat) (before behind : Bytes),
    (e.1, e.2.1, ⟨UInt32.ofNat first, UInt32.ofNat e.2.2.length⟩) ∈ w.records ∧ 0 < first ∧
      w.file e.1 = before ++ (SectorChain.write layout e.1 e.2.1 e.2.2 first ++ behind) ∧
      before.length = Sector.size * first

structure Holds (layout : Layout) (w : Writer) (entries : List Entry) : Prop where
  whole : ∀ archive, Sector.size ∣ (w.file archive).length
  begun : ∀ archive, 0 < (w.file archive).length
  placed : ∀ e ∈ entries, w.Placed layout e
  records : w.records.map (fun r => (r.1, r.2.1)) = (entries.map fun e => (e.1, e.2.1)).reverse

theorem holds_start (layout : Layout) (hasMusic : Bool) : (Writer.start hasMusic).Holds layout [] := by
  have hf : ∀ archive, (Writer.start hasMusic).file archive = blank := by
    intro archive
    unfold file start
    cases hasMusic with
    | false => rfl
    | true => exact ite_self blank
  have hl : blank.length = Sector.size := List.length_replicate ..
  refine ⟨?_, ?_, ?_, rfl⟩
  · intro archive
    rw [hf]
    exact ⟨1, hl.trans (Nat.mul_one _).symm⟩
  · intro archive
    rw [hf, hl]
    decide
  · intro e he
    cases he

variable {layout w} {entries : List Entry}

theorem Placed.put {e : Entry} (h : w.Placed layout e) :
    (w.put layout archive group packed).Placed layout e := by
  obtain ⟨first, before, behind, hr, hf, hw, hb⟩ := h
  obtain ⟨sectors, hs, -⟩ := w.file_put layout archive e.1 group packed
  refine ⟨first, before, behind ++ sectors, ?_, hf, ?_, hb⟩
  · rw [records_put]
    exact List.mem_cons_of_mem _ hr
  · rw [hs, hw]
    simp only [List.append_assoc]

theorem Holds.placed_put (h : w.Holds layout entries) :
    (w.put layout archive group packed).Placed layout (archive, group, packed) := by
  obtain ⟨n, hn⟩ := h.whole archive
  have hb := h.begun archive
  have hd : (w.file archive).length / Sector.size = n := by
    rw [hn, Nat.mul_div_cancel_left _ (by decide : 0 < Sector.size)]
  refine ⟨n, w.file archive, [], ?_, ?_, ?_, hn⟩
  · rw [records_put, ← hd]
    exact List.mem_cons_self ..
  · rw [hn] at hb
    exact Nat.pos_of_mul_pos_left hb
  · rw [file_put_self, hd, List.append_nil]

theorem Holds.put (h : w.Holds layout entries) :
    (w.put layout archive group packed).Holds layout (entries ++ [(archive, group, packed)]) where
  whole other := by
    obtain ⟨sectors, hs, hd⟩ := w.file_put layout archive other group packed
    rw [hs, List.length_append]
    exact Nat.dvd_add (h.whole other) hd
  begun other := by
    obtain ⟨sectors, hs, -⟩ := w.file_put layout archive other group packed
    rw [hs, List.length_append]
    exact Nat.lt_of_lt_of_le (h.begun other) (Nat.le_add_right ..)
  placed e he := by
    rw [List.mem_append, List.mem_singleton] at he
    rcases he with he | rfl
    · exact (h.placed e he).put archive group packed
    · exact h.placed_put archive group packed
  records := by
    rw [records_put]
    simp [h.records]

theorem Holds.foldl (h : w.Holds layout entries) (more : List Entry) :
    (more.foldl (fun w e => w.put layout e.1 e.2.1 e.2.2) w).Holds layout (entries ++ more) := by
  induction more generalizing w entries with
  | nil => simpa using h
  | cons e more ih =>
    -- an entry is put behind those that are there, which stay where they are
    simpa using ih (h.put e.1 e.2.1 e.2.2)

theorem isSome_music_foldl (more : List Entry) (w : Writer) :
    (more.foldl (fun w e => w.put layout e.1 e.2.1 e.2.2) w).music.isSome = w.music.isSome := by
  induction more generalizing w with
  | nil => rfl
  | cons e more ih => rw [List.foldl_cons, ih, isSome_music_put]

/-! ## Records -/

theorem lookup_of_mem {α β : Type} [BEq α] [LawfulBEq α] {key : α} {value : β} : ∀ {l : List (α × β)},
    (key, value) ∈ l → (l.map Prod.fst).Nodup → l.lookup key = some value
  | (k, v) :: l, h, hn => by
    rw [List.map_cons, List.nodup_cons] at hn
    rw [List.lookup_cons]
    by_cases hk : key = k
    · subst hk
      rw [beq_self_eq_true]
      cases h with
      | head => rfl
      | tail _ h => exact absurd (List.mem_map_of_mem h) hn.1
    · rw [beq_false_of_ne hk]
      cases h with
      | head => exact absurd rfl hk
      | tail _ h => exact lookup_of_mem h hn.2

theorem mem_recordsOf {r : IndexRecord} :
    (group, r) ∈ w.recordsOf archive ↔ (archive, group, r) ∈ w.records := by
  unfold recordsOf
  rw [List.mem_map]
  constructor
  · intro ⟨p, hp, he⟩
    rw [List.mem_filter] at hp
    obtain ⟨a, q⟩ := p
    have ha : a = archive := by simpa using hp.2
    rw [← ha, ← he]
    exact hp.1
  · intro h
    exact ⟨(archive, group, r), List.mem_filter.mpr ⟨h, by simp⟩, rfl⟩

structure Roomy (w : Writer) (entries : List Entry) : Prop where
  distinct : (entries.map fun e => (e.1, e.2.1)).Nodup
  packed : ∀ e ∈ entries, 0 < e.2.2.length ∧ e.2.2.length < 2 ^ 24
  sectors : ∀ archive, (w.file archive).length ≤ Sector.size * 2 ^ 24

variable (hn : w.Roomy entries)
include hn

theorem Holds.nodup_recordsOf (h : w.Holds layout entries) : ((w.recordsOf archive).map Prod.fst).Nodup := by
  have hr : (w.records.map fun r => (r.1, r.2.1)).Nodup := by
    rw [h.records, List.nodup_reverse]
    exact hn.distinct
  have hf := (List.filter_sublist (p := fun r => decide (r.1 = archive)) (l := w.records)).map
    fun r => (r.1, r.2.1)
  have hd := hf.nodup hr
  have he : ((w.records.filter fun r => decide (r.1 = archive)).map fun r => (r.1, r.2.1)) =
      ((w.recordsOf archive).map Prod.fst).map fun g => (archive, g) := by
    unfold recordsOf
    rw [List.map_map, List.map_map]
    apply List.map_congr_left
    intro r hr
    have ha : r.1 = archive := by simpa using (List.mem_filter.mp hr).2
    exact Prod.ext ha rfl
  rw [he] at hd
  exact List.Nodup.of_map _ hd

theorem Holds.lookup (h : w.Holds layout entries) {e : Entry} (he : e ∈ entries) :
    ∃ (first : Nat) (before behind : Bytes),
      (w.recordsOf e.1).lookup e.2.1 = some ⟨UInt32.ofNat first, UInt32.ofNat e.2.2.length⟩ ∧
        w.file e.1 = before ++ (SectorChain.write layout e.1 e.2.1 e.2.2 first ++ behind) ∧
        before.length = Sector.size * first ∧ 0 < first ∧
          first + SectorChain.sectors e.2.1 e.2.2 ≤ 2 ^ 24 := by
  obtain ⟨first, before, behind, hr, hf, hw, hb⟩ := h.placed e he
  have hlookup := lookup_of_mem ((mem_recordsOf e.1 e.2.1).mpr hr) (h.nodup_recordsOf e.1 hn)
  refine ⟨first, before, behind, hlookup, hw, hb, hf, ?_⟩
  have hs := hn.sectors e.1
  rw [hw, List.length_append, List.length_append, hb, SectorChain.length_write] at hs
  have : Sector.size * (first + SectorChain.sectors e.2.1 e.2.2) ≤ Sector.size * 2 ^ 24 := by
    rw [Nat.mul_add]
    omega
  exact Nat.le_of_mul_le_mul_left this (by decide)

theorem Holds.record_fits (h : w.Holds layout entries) {r : IndexRecord}
    (hr : (group, r) ∈ w.recordsOf archive) :
    r.Fits ∧ r.sector ≠ 0 := by
  have hk : (archive, group) ∈ (entries.map fun e => (e.1, e.2.1)).reverse := by
    rw [← h.records]
    exact List.mem_map_of_mem (f := fun r => (r.1, r.2.1)) ((mem_recordsOf archive group).mp hr)
  rw [List.mem_reverse, List.mem_map] at hk
  obtain ⟨e, he, hk⟩ := hk
  cases hk
  obtain ⟨first, before, behind, hl, -, -, hf, hs⟩ := h.lookup hn he
  obtain ⟨hp, hp'⟩ := hn.packed e he
  have hc : 0 < SectorChain.sectors e.2.1 e.2.2 := by
    have := Sector.payloadSize_pos e.2.1
    rw [SectorChain.sectors_eq]
    exact Nat.div_pos (by omega) this
  rw [lookup_of_mem hr (h.nodup_recordsOf e.1 hn)] at hl
  cases hl
  have hfirst : (UInt32.ofNat first).toNat = first :=
    UInt32.toNat_ofNat_of_lt' (by show _ < 4294967296; omega)
  have hlength : (UInt32.ofNat e.2.2.length).toNat = e.2.2.length :=
    UInt32.toNat_ofNat_of_lt' (by show _ < 4294967296; omega)
  refine ⟨⟨?_, ?_⟩, ?_⟩
  · rw [hlength]
    exact hp'
  · show (UInt32.ofNat first).toNat < _
    omega
  · intro h₀
    have := congrArg UInt32.toNat h₀
    rw [hfirst] at this
    exact absurd this (Nat.ne_of_gt hf)

end Writer

/-! ## The directory -/

def packedIndex (compress : Compression → Bytes → Bytes) (groups : List GroupContent) (archive : UInt8) :
    Bytes :=
  let index := ReferenceIndex.ofGroups compress (groups.filter (·.archive = archive))
  Envelope.write .none index.toBytes index.toBytes.length none

section
variable (compress : Compression → Bytes → Bytes) (root : String) (hasMusic : Bool)
    (groups : List GroupContent)

def entries : List Entry :=
  groups.map (fun g => (g.archive, g.id, g.packed compress)) ++
    (archivesOf (groups.map GroupContent.archive)).map fun archive =>
      (Store.referenceArchive, archive.toUInt32, packedIndex compress groups archive)

def indexed : List UInt8 := archivesOf (Store.referenceArchive :: groups.map GroupContent.archive)

theorem writer_eq : writer compress hasMusic groups =
    (entries compress groups).foldl (fun w e => w.put .js5 e.1 e.2.1 e.2.2) (.start hasMusic) := by
  unfold writer entries
  rw [List.foldl_append, List.foldl_map, List.foldl_map]
  rfl

theorem holds_writer : (writer compress hasMusic groups).Holds .js5 (entries compress groups) := by
  rw [writer_eq]
  exact (Writer.holds_start .js5 hasMusic).foldl (entries compress groups)

theorem isSome_music_writer : (writer compress hasMusic groups).music.isSome = hasMusic := by
  rw [writer_eq, Writer.isSome_music_foldl]
  cases hasMusic <;> rfl

theorem lookup_indexFiles (f : UInt8 → Bytes) (archives : List UInt8) (archive : UInt8) :
    (archives.map fun a => ([IndexFiles.fileName a], some (f a))).lookup [IndexFiles.fileName archive] =
      if archive ∈ archives then some (some (f archive)) else none := by
  induction archives with
  | nil => rfl
  | cons a archives ih =>
    rw [List.map_cons, List.lookup_cons, ih]
    by_cases ha : archive = a
    · subst ha
      simp
    · have hb : ([IndexFiles.fileName archive] == [IndexFiles.fileName a]) = false := by
        apply beq_false_of_ne
        intro h
        exact ha (IndexFiles.fileName_inj (List.singleton_inj.mp h))
      simp [hb, ha]

theorem lookup_indexFiles_of_ne (f : UInt8 → Bytes) (archives : List UInt8) {name : String}
    (h : ∀ archive, IndexFiles.fileName archive ≠ name) :
    (archives.map fun a => ([IndexFiles.fileName a], some (f a))).lookup [name] = none := by
  induction archives with
  | nil => rfl
  | cons a archives ih =>
    have hb : ([name] == [IndexFiles.fileName a]) = false := by
      apply beq_false_of_ne
      intro he
      exact h a (List.singleton_inj.mp he).symm
    rw [List.map_cons, List.lookup_cons, hb]
    exact ih

theorem entries_directory : (directory compress root hasMusic groups).entries =
    ([DiskStore.dataName .js5], some (writer compress hasMusic groups).data) ::
      ((writer compress hasMusic groups).music.toList.map fun music => ([DiskStore.musicName], some music)) ++
      (indexed groups).map fun archive => ([IndexFiles.fileName archive],
        some (IndexFile.ofGroups ((writer compress hasMusic groups).recordsOf archive))) := rfl

theorem entry_dataName : (directory compress root hasMusic groups).entry [DiskStore.dataName .js5] =
    .file (writer compress hasMusic groups).data := by
  unfold Directory.entry
  simp [entries_directory]

theorem entry_musicName : (directory compress root hasMusic groups).entry [DiskStore.musicName] =
    match (writer compress hasMusic groups).music with
    | some music => .file music
    | none => .absent := by
  have hd : ([DiskStore.musicName] == [DiskStore.dataName .js5]) = false := by decide
  unfold Directory.entry
  rw [entries_directory, if_neg (List.cons_ne_nil _ _), List.cons_append, List.lookup_cons, hd]
  cases (writer compress hasMusic groups).music with
  | some music => simp
  | none =>
    rw [Option.toList_none, List.map_nil, List.nil_append]
    rw [lookup_indexFiles_of_ne _ _ IndexFiles.fileName_ne_musicName]

theorem entry_fileName (archive : UInt8) :
    (directory compress root hasMusic groups).entry [IndexFiles.fileName archive] =
    if archive ∈ indexed groups then
      .file (IndexFile.ofGroups ((writer compress hasMusic groups).recordsOf archive))
    else .absent := by
  have hd : ([IndexFiles.fileName archive] == [DiskStore.dataName .js5]) = false := by
    apply beq_false_of_ne
    intro h
    exact IndexFiles.fileName_ne_dataName archive (List.singleton_inj.mp h)
  have hm : ([IndexFiles.fileName archive] == [DiskStore.musicName]) = false := by
    apply beq_false_of_ne
    intro h
    exact IndexFiles.fileName_ne_musicName archive (List.singleton_inj.mp h)
  have hmusic : ∀ rest : List (List String × Option Bytes),
      (((writer compress hasMusic groups).music.toList.map
        fun music => ([DiskStore.musicName], some music)) ++
        rest).lookup [IndexFiles.fileName archive] = rest.lookup [IndexFiles.fileName archive] := by
    intro rest
    cases (writer compress hasMusic groups).music with
    | some music => simp [List.lookup_cons, hm]
    | none => rfl
  unfold Directory.entry
  rw [entries_directory, if_neg (List.cons_ne_nil _ _), List.cons_append, List.lookup_cons, hd]
  simp only [hmusic, lookup_indexFiles]
  by_cases ha : archive ∈ indexed groups
  · simp only [if_pos ha]
  · simp only [if_neg ha]

end

/-! ## The store -/

theorem dataFile_of_file {d : Directory} {path : String} {bytes : Bytes} (h : d.find path = .file bytes)
    (hb : 0 < bytes.length) : DiskStore.dataFile d path = some bytes.toArray := by
  rw [DiskStore.dataFile_of_find h, if_neg (List.ne_nil_of_length_pos hb)]

section
variable (compress : Compression → Bytes → Bytes) (root : String) (hasMusic : Bool)
    (groups : List GroupContent)
  (options : Options)

def storeOf : DiskStore where
  root
  layout := .js5
  data := (writer compress hasMusic groups).data.toArray
  music := if options.musicData then (writer compress hasMusic groups).music.map List.toArray else none
  index := ((IndexFiles.ofRoot root).load (directory compress root hasMusic groups) Store.referenceArchive).2

theorem mem_archivesOf {archives : List UInt8} {archive : UInt8} :
    archive ∈ archivesOf archives ↔ archive ∈ archives := by
  unfold archivesOf
  rw [mem_eraseReps, List.mem_mergeSort]

theorem mem_indexed {archive : UInt8} :
    archive ∈ indexed groups ↔ archive = Store.referenceArchive ∨ ∃ g ∈ groups, g.archive = archive := by
  unfold indexed
  rw [mem_archivesOf, List.mem_cons, List.mem_map]

/-- The music file has to be used if the music archive was written to it. -/
theorem dataFor_storeOf {archive : UInt8}
    (hm : archive = Store.musicArchive → hasMusic = true → options.musicData = true) :
    (storeOf compress root hasMusic groups options).dataFor archive =
      ((writer compress hasMusic groups).file archive).toArray := by
  unfold DiskStore.dataFor storeOf
  have hs := isSome_music_writer compress hasMusic groups
  cases hw : (writer compress hasMusic groups).music with
  | none =>
    unfold Writer.file
    simp [hw]
  | some music =>
    rw [hw] at hs
    by_cases ha : archive = Store.musicArchive
    · subst ha
      simp [hm rfl hs.symm, Writer.file_music hw]
    · rw [Writer.file_of_ne _ ha]
      cases options.musicData with
      | true => simp [ha]
      | false => rfl

theorem mem_indexed_of_mem {e : Entry} (he : e ∈ entries compress groups) : e.1 ∈ indexed groups := by
  rw [mem_indexed]
  unfold entries at he
  rw [List.mem_append, List.mem_map, List.mem_map] at he
  rcases he with ⟨g, hg, rfl⟩ | ⟨archive, -, rfl⟩
  · exact .inr ⟨g, hg, rfl⟩
  · exact .inl rfl

variable {compress root hasMusic groups} (hr : Directory.IsRoot root)
  (hn : (writer compress hasMusic groups).Roomy (entries compress groups))
include hr

theorem find_fileName (archive : UInt8) :
    (directory compress root hasMusic groups).find ((IndexFiles.ofRoot root).path archive) =
      if archive ∈ indexed groups then
        .file (IndexFile.ofGroups ((writer compress hasMusic groups).recordsOf archive))
      else .absent := by
  rw [IndexFiles.path_eq, ← entry_fileName compress root]
  exact Directory.find_joinPath (d := directory compress root hasMusic groups) hr
    (IndexFiles.isFileName_fileName archive)

theorem hasArchive_storeOf (archive : UInt8) :
    (storeOf compress root hasMusic groups options).hasArchive
      (directory compress root hasMusic groups) archive =
      decide (archive ∈ indexed groups) := by
  unfold DiskStore.hasArchive storeOf
  rw [IndexFiles.hasArchive_load]
  show (none.isSome || Directory.isFile _ _) = _
  unfold Directory.isFile
  rw [find_fileName hr]
  by_cases ha : archive ∈ indexed groups
  · simp [ha]
  · simp [ha]

include hn

theorem readFile_of_mem {archive : UInt8} (ha : archive ∈ indexed groups) :
    (IndexFiles.ofRoot root).readFile (directory compress root hasMusic groups) archive =
      .ok ⟨(IndexFile.slots ((writer compress hasMusic groups).recordsOf archive)).toArray⟩ := by
  unfold IndexFiles.readFile
  rw [find_fileName hr, if_pos ha]
  apply IndexFile.parse_ofGroups
  intro g hg
  exact ((holds_writer compress hasMusic groups).record_fits archive g.1 hn hg).1

theorem load_storeOf {archive : UInt8} (ha : archive ∈ indexed groups) :
    ((storeOf compress root hasMusic groups options).index.load
      (directory compress root hasMusic groups) archive).1 =
      .ok ⟨(IndexFile.slots ((writer compress hasMusic groups).recordsOf archive)).toArray⟩ := by
  unfold storeOf
  rw [IndexFiles.load_load, IndexFiles.load_fst]
  have hread := readFile_of_mem hr hn ha
  exact hread

theorem openIndex_directory : DiskStore.openIndex (directory compress root hasMusic groups) root .js5 =
    .ok (storeOf compress root hasMusic groups options).index := by
  have hl := load_storeOf options hr hn ((mem_indexed groups).mpr (.inl rfl))
  unfold storeOf at hl
  rw [IndexFiles.load_load] at hl
  unfold DiskStore.openIndex storeOf
  rcases h : (IndexFiles.ofRoot root).load (directory compress root hasMusic groups)
      Store.referenceArchive with ⟨f, index⟩
  rw [h] at hl
  cases hl
  rfl

omit hn

theorem find_dataName :
    (directory compress root hasMusic groups).find (joinPath root (DiskStore.dataName .js5)) =
    .file (writer compress hasMusic groups).data := by
  rw [← entry_dataName compress root]
  exact Directory.find_joinPath (d := directory compress root hasMusic groups) hr
    DiskStore.isFileName_dataName

theorem find_musicName : (directory compress root hasMusic groups).find (joinPath root DiskStore.musicName) =
    match (writer compress hasMusic groups).music with
    | some music => .file music
    | none => .absent := by
  rw [← entry_musicName compress root]
  exact Directory.find_joinPath (d := directory compress root hasMusic groups) hr
    DiskStore.isFileName_musicName

theorem dataFile_dataName :
    DiskStore.dataFile (directory compress root hasMusic groups) (joinPath root (DiskStore.dataName .js5)) =
      some (writer compress hasMusic groups).data.toArray := by
  have hb := (holds_writer compress hasMusic groups).begun Store.referenceArchive
  rw [Writer.file_of_ne _ (by decide)] at hb
  exact dataFile_of_file (find_dataName hr) hb

theorem dataFile_musicName :
    DiskStore.dataFile (directory compress root hasMusic groups) (joinPath root DiskStore.musicName) =
      (writer compress hasMusic groups).music.map List.toArray := by
  have hf : (directory compress root hasMusic groups).find (joinPath root DiskStore.musicName) = _ :=
    find_musicName hr
  cases hw : (writer compress hasMusic groups).music with
  | none =>
    rw [hw] at hf
    unfold DiskStore.dataFile
    rw [hf]
    rfl
  | some music =>
    have hb := (holds_writer compress hasMusic groups).begun Store.musicArchive
    rw [Writer.file_music hw] at hb
    rw [hw] at hf
    exact dataFile_of_file hf hb

include hn

theorem openAt_directory : DiskStore.openAt (directory compress root hasMusic groups) root options =
    .ok (storeOf compress root hasMusic groups options) := by
  have hroot : (directory compress root hasMusic groups).find root = .folder :=
    Directory.find_root (d := directory compress root hasMusic groups) hr
  have hlayout : DiskStore.layoutOf (directory compress root hasMusic groups) root = some .js5 := by
    unfold DiskStore.layoutOf Directory.isFile
    rw [find_dataName hr]
    rfl
  unfold DiskStore.openAt Directory.isFolder
  rw [hroot, hlayout]
  simp only [decide_true, Bool.not_true, Bool.false_eq_true, if_false]
  rw [openIndex_directory options hr hn, dataFile_dataName hr, dataFile_musicName hr]
  rfl

theorem read_storeOf {e : Entry} (he : e ∈ entries compress groups)
    (hm : e.1 = Store.musicArchive → hasMusic = true → options.musicData = true) :
    ((storeOf compress root hasMusic groups options).read
      (directory compress root hasMusic groups) e.1 e.2.1).1 =
      .ok e.2.2 := by
  have hw := holds_writer compress hasMusic groups
  obtain ⟨first, before, behind, hl, hf, hb, hpos, hs⟩ := hw.lookup hn he
  have hget := IndexFile.get?_slots (fun g hg => (hw.record_fits e.1 g.1 hn hg).2) e.2.1
  obtain ⟨-, hp⟩ := hn.packed e he
  rw [DiskStore.read_eq, IndexFiles.lookup_eq,
    load_storeOf options hr hn (mem_indexed_of_mem compress groups he)]
  simp only [Except.bind, hget, hl, Option.map_some, Option.getD_some]
  unfold DiskStore.readChain
  rw [dataFor_storeOf compress root hasMusic groups options hm]
  exact SectorChain.Source.read_write before behind hf hb hpos hs (by omega)

omit hr in
theorem isSome_lookup_recordsOf_iff (archive : UInt8) (group : UInt32) :
    (((writer compress hasMusic groups).recordsOf archive).lookup group).isSome ↔
      ∃ e ∈ entries compress groups, e.1 = archive ∧ e.2.1 = group := by
  have hw := holds_writer compress hasMusic groups
  constructor
  · intro h
    obtain ⟨r, hl⟩ := Option.isSome_iff_exists.mp h
    have hk : (archive, group) ∈ ((entries compress groups).map fun e => (e.1, e.2.1)).reverse := by
      rw [← hw.records]
      have := (Writer.mem_recordsOf archive group).mp (IndexFile.mem_of_lookup hl)
      exact List.mem_map_of_mem (f := fun r => (r.1, r.2.1)) this
    rw [List.mem_reverse, List.mem_map] at hk
    obtain ⟨e, he, hk⟩ := hk
    cases hk
    exact ⟨e, he, rfl, rfl⟩
  · intro ⟨e, he, ha, hg⟩
    subst ha hg
    obtain ⟨first, before, behind, hl, -⟩ := hw.lookup hn he
    rw [hl]
    rfl

theorem list_storeOf {archive : UInt8} (ha : archive ∈ indexed groups) :
    ∃ ids, ((storeOf compress root hasMusic groups options).list
        (directory compress root hasMusic groups) archive).1 = .ok ids ∧
      ids.Pairwise (· < ·) ∧
        ∀ id, id ∈ ids ↔ ∃ e ∈ entries compress groups, e.1 = archive ∧ e.2.1 = id := by
  have hw := holds_writer compress hasMusic groups
  unfold DiskStore.list
  rw [IndexFiles.list_eq, load_storeOf options hr hn ha]
  refine ⟨_, rfl, IndexFile.pairwise_groups IndexFile.size_slots_le, fun id => ?_⟩
  rw [IndexFile.mem_groups_iff IndexFile.size_slots_le,
    IndexFile.get?_slots fun g hg => (hw.record_fits archive g.1 hn hg).2]
  exact isSome_lookup_recordsOf_iff hn archive id

end

end Js5.Cache
