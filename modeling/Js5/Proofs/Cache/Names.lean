import Js5.Proofs.Archive.Verification
import Js5.Proofs.Cache.Kept
import Js5.Proofs.NameHash
import Js5.Proofs.ReferenceIndex.Names

/-! # A group is read by its name as it is read by its id -/

namespace Js5

/-! ## Archives -/

namespace Archive

structure IsLoaded (id : UInt8) (a : Archive) : Prop where
  id_eq : a.id = id
  index : ∀ index, a.index = some index → ∃ buf, ReferenceIndex.ofBytes buf = .ok index

theorem ofBytes_of_openIndex {id : UInt8} {packed : Except StoreError Bytes} {index : ReferenceIndex}
    (h : openIndex id packed = .ok index) : ∃ buf, ReferenceIndex.ofBytes buf = .ok index := by
  unfold openIndex at h
  split at h
  · cases h
  · cases h
  · obtain ⟨envelope, -, h⟩ := bind_eq_ok h
    exact ⟨envelope.data, mapError_eq_ok h⟩

theorem isLoaded_of_load {W S : Type} [Store W S] {w : W} {s : S} {id : UInt8} {options : Options}
    {a : Archive} (h : (load w s id options).1 = .ok a) : a.IsLoaded id := by
  unfold load at h
  split at h
  · cases h
  · split at h
    · cases h
      exact ⟨rfl, fun index hi => by cases hi⟩
    · obtain ⟨index, hi, rfl⟩ := map_eq_ok h
      refine ⟨rfl, fun index' hi' => ?_⟩
      cases hi'
      exact ofBytes_of_openIndex hi

theorem groupByName_of_isNamed {id : UInt8} {a : Archive} (h : a.IsLoaded id) {index : ReferenceIndex}
    {hash group : UInt32} (hi : a.index = some index) (hn : index.IsNamed hash group) :
    a.groupByName hash = .ok group := by
  obtain ⟨buf, hb⟩ := h.index index hi
  have hnamed := (ReferenceIndex.named?_eq_some_iff_isNamed (ReferenceIndex.ascending_of_ofBytes hb)).mpr hn
  unfold groupByName
  rw [hi, Option.bind_some, hnamed]

theorem groupByName_of_unnamed {a : Archive} {hash : UInt32} (h : ∀ index, a.index = some index →
    index.hasNames = true → ∀ g ∈ index.groups, g.nameHash.toUInt32 ≠ hash) :
    a.groupByName hash = .error (.unknownName a.id hash) := by
  unfold groupByName
  cases hi : a.index with
  | none => rfl
  | some index =>
    rw [Option.bind_some, ReferenceIndex.named?_eq_none_iff.mpr (h index hi)]

end Archive

/-! ## Caches -/

namespace Cache

variable {W S : Type} [Store W S] {w : W} {t : S} {c : Cache S} {id : UInt8} {a : Archive}

theorem withArchive_eq {α : Type} (hc : c.store = some t) (ha : (c.archive w t id).1 = .ok a)
    (ask : Archive → S → Except ArchiveError α × S) : c.withArchive w id ask =
      ((ask a (c.archive w t id).2.2).1.mapError .archive,
        { (c.archive w t id).2.1 with store := some (ask a (c.archive w t id).2.2).2 }) := by
  unfold withArchive
  simp only [hc]
  rcases hr : c.archive w t id with ⟨e | a', c', u⟩
  · rw [hr] at ha
    cases ha
  · rw [hr] at ha
    cases ha
    rfl

theorem readNamed_of_isNamed (hc : c.store = some t) (ha : (c.archive w t id).1 = .ok a) (hl : a.IsLoaded id)
    {index : ReferenceIndex} {name : String} {group : UInt32} (hi : a.index = some index)
    (hn : index.IsNamed (nameHash name) group) (file : UInt16) (key : Option Xtea.Key) :
    c.readNamed w id name file key = c.read w id group file key := by
  unfold readNamed read
  rw [withArchive_eq hc ha, withArchive_eq hc ha]
  unfold Archive.readNamed
  rw [Archive.groupByName_of_isNamed hl hi hn]

theorem readNamed_of_unnamed (hc : c.store = some t) (ha : (c.archive w t id).1 = .ok a) (hl : a.IsLoaded id)
    {name : String} (h : ∀ index, a.index = some index → index.hasNames = true →
      ∀ g ∈ index.groups, g.nameHash.toUInt32 ≠ nameHash name) (file : UInt16) (key : Option Xtea.Key) :
    (c.readNamed w id name file key).1 = .error (.archive (.unknownName id (nameHash name))) := by
  unfold readNamed
  rw [withArchive_eq hc ha]
  unfold Archive.readNamed
  rw [Archive.groupByName_of_unnamed h, hl.id_eq]
  rfl

/-- **Names stand for groups.** A name hash stands for the highest group that has it, as in a table that is
filled in order, and a cache reads by name what it reads by the id of that group. -/
theorem named_reads_resolve {W S : Type} [Store W S] (s : S) (options : Options)
    (calls : List (W × Call)) :
    (∀ buf index, ReferenceIndex.ofBytes buf = .ok index → ∀ hash,
      (∀ group, index.named? hash = some group ↔ index.IsNamed hash group) ∧
      (index.named? hash = none ↔
        (index.hasNames = true → ∀ g ∈ index.groups, g.nameHash.toUInt32 ≠ hash)) ∧
      index.named? hash = index.nameTable.lookup hash) ∧
    (∀ name : String,
      (nameHash name).toNat = Nat.ofDigits 31 (name.toUTF8.data.toList.reverse.map UInt8.toNat) % 2 ^ 32) ∧
    ∀ (w : W) (t : S) (id : UInt8) (a : Archive) (name : String) (file : UInt16) (key : Option Xtea.Key),
      let c := (ofStore s options).through calls
      let unknown : Except CacheError Bytes := .error (.archive (.unknownName id (nameHash name)))
      c.store = some t → (c.archive w t id).1 = .ok a →
        (∀ index group, a.index = some index → index.IsNamed (nameHash name) group →
          c.readNamed w id name file key = c.read w id group file key) ∧
        ((∀ index, a.index = some index → index.hasNames = true →
            ∀ g ∈ index.groups, g.nameHash.toUInt32 ≠ nameHash name) →
          (c.readNamed w id name file key).1 = unknown) ∧
        (a.index = none ∨ (∃ index, a.index = some index ∧ index.hasNames = false) →
          (c.readNamed w id name file key).1 = unknown) := by
  refine ⟨fun buf index h hash => ?_, fun name => toNat_hashBytes _, ?_⟩
  · exact ⟨fun group => ReferenceIndex.named?_eq_some_iff_isNamed (ReferenceIndex.ascending_of_ofBytes h),
      ReferenceIndex.named?_eq_none_iff, ReferenceIndex.named?_eq_lookup index hash⟩
  · intro w t id a name file key c unknown hc ha
    have hload : ∀ (w : W) (s : S) (id : UInt8) (options : Options) (a : Archive),
        (Archive.load w s id options).1 = .ok a → a.IsLoaded id := fun _ _ _ _ _ => Archive.isLoaded_of_load
    have hl : a.IsLoaded id := ((kept_ofStore s options).through hload calls).archive hload ha
    refine ⟨fun index group hi hn => readNamed_of_isNamed hc ha hl hi hn file key,
      fun h => readNamed_of_unnamed hc ha hl h file key, fun h => readNamed_of_unnamed hc ha hl ?_ file key⟩
    intro index hi hn
    rcases h with h | ⟨index', h, hn'⟩
    · rw [h] at hi
      cases hi
    · rw [h] at hi
      cases hi
      rw [hn'] at hn
      cases hn

/-- Of two groups with one name hash the higher is found, and a file is read by the name of its group. -/
theorem named_reads_resolve_sample :
    let c := ofStore Archive.sampleStore { verifyChecksums := false }
    ReferenceIndex.wideIndex.named? 77 = some 0x80000010 ∧
      c.readNamed () 2 "DP>" 1 none = c.read () 2 4 1 none ∧
      (c.readNamed () 2 "a" 1 none).1 = .error (.archive (.unknownName 2 97)) := by
  intro c
  have hresolve := named_reads_resolve Archive.sampleStore { verifyChecksums := false }
    ([] : List (Unit × Call))
  have hload : (c.archive () Archive.sampleStore 2).1 = .ok ⟨2, some Archive.sampleIndex, false⟩ :=
    (archive_fst_of_lookup_none rfl).trans (Archive.load_sampleStore false)
  have hread := ReferenceIndex.ofBytes_toBytes ReferenceIndex.fits_wideIndex []
  have hname := hresolve.2.2 () Archive.sampleStore 2 _ "DP>" 1 none rfl hload
  have hother := hresolve.2.2 () Archive.sampleStore 2 _ "a" 1 none rfl hload
  refine ⟨?_, ?_, ?_⟩
  · refine ((hresolve.1 _ _ hread 77).1 _).mpr ⟨rfl, ?_, ?_⟩
    · decide
    · decide
  · refine hname.1 _ 4 rfl ⟨rfl, ?_, ?_⟩
    · decide +kernel
    · decide +kernel
  · refine (hother.2.1 ?_).trans ?_
    · intro index hi _
      cases hi
      decide +kernel
    · decide +kernel

end Cache

end Js5
