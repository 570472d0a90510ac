import Js5.Proofs.Archive
import Js5.Proofs.Stripes.Columns

/-!
# One file and all files

Where a file is asked for that a group of several files does not have, its data is never split, so a fault
in its trailer stays unseen.
-/

namespace Js5.Archive

structure ReadOfGroup (a : Archive) (group : UInt32) (file : UInt16)
    (all : Except ArchiveError (List (UInt32 × Bytes)))
    (one : Except ArchiveError Bytes) : Prop where
  keys (files : List (UInt32 × Bytes)) : all = .ok files → files.map Prod.fst = a.fileIds group
  only (files : List (UInt32 × Bytes)) : all = .ok files → a.index = none ∨ (a.fileIds group).length = 1 →
    ∃ id data, files = [(id, data)] ∧ one = .ok data
  listed (files : List (UInt32 × Bytes)) : all = .ok files → 2 ≤ (a.fileIds group).length →
    file.toUInt32 ∈ a.fileIds group → ∃ data, files.lookup file.toUInt32 = some data ∧ one = .ok data
  unlisted : (∃ files, all = .ok files) ∨ (∃ reason, all = .error (.stripes reason)) →
    2 ≤ (a.fileIds group).length →
    file.toUInt32 ∉ a.fileIds group →
      one = .error (.stripes (.fileOutOfRange file.toUInt32 (a.fileIds group).length))
  fault (e : ArchiveError) : all = .error e →
    (∀ reason, e ≠ .stripes reason) ∨ (a.fileIds group).length < 2 ∨ file.toUInt32 ∈ a.fileIds group →
      one = .error e

theorem readOfGroup_files {a : Archive} {group : UInt32} {g : ReferenceIndex.Group}
    (hg : a.entry group = .ok (some g)) (file : UInt16) (data : Bytes) :
    a.ReadOfGroup group file (filesOf (some g) data) (fileOf file (some g) data) := by
  have hids := fileIds_of_entry_some hg
  obtain ⟨index, hi, -⟩ := index_of_entry_some hg
  have h := Stripes.fileOfSplit data g.fileIds file.toUInt32
  have hall : filesOf (some g) data = (Stripes.split data g.fileIds).mapError .stripes := rfl
  have hone : fileOf file (some g) data = (Stripes.file data g.fileIds file.toUInt32).mapError .stripes := rfl
  rw [hall, hone]
  refine ⟨fun files hf => ?keys, fun files hf hl => ?only, fun files hf hl hm => ?listed,
    fun _ hl hm => ?unlisted, fun e hf hl => ?fault⟩
  case keys =>
    rw [hids]
    exact Stripes.map_fst_of_split (mapError_eq_ok hf)
  case only =>
    rw [hi, hids, or_iff_right (Option.some_ne_none index)] at hl
    obtain ⟨only, ho⟩ := List.length_eq_one_iff.mp hl
    obtain ⟨hs, hd⟩ := h.single only ho
    rw [hs] at hf
    cases hf
    exact ⟨only, data, rfl, congrArg _ hd⟩
  case listed =>
    rw [hids] at hl hm
    obtain ⟨d, hd, hf⟩ := h.listed hl hm files (mapError_eq_ok hf)
    exact ⟨d, hd, congrArg _ hf⟩
  case unlisted =>
    rw [hids] at hl hm ⊢
    exact congrArg _ (h.unlisted hl hm)
  case fault =>
    obtain ⟨reason, hs, rfl⟩ := mapError_eq_error hf
    rw [hids] at hl
    rcases hl with hl | hl
    · exact absurd rfl (hl reason)
    · exact congrArg _ (Stripes.file_of_split_error hs hl)

theorem readOfGroup_whole {a : Archive} {group : UInt32} (h : a.entry group = .ok none) (file : UInt16)
    (data : Bytes) :
    a.ReadOfGroup group file (filesOf none data) (fileOf file none data) := by
  have hids := fileIds_of_entry_none h
  have hl : ¬ 2 ≤ (a.fileIds group).length := by
    rw [hids]
    decide
  refine ⟨fun files hf => ?keys, fun files hf _ => ?only, fun _ _ h => absurd h hl,
    fun _ h => absurd h hl, fun _ hf => ?fault⟩
  case keys =>
    cases hf
    exact hids.symm
  case only =>
    cases hf
    exact ⟨0, data, rfl, rfl⟩
  case fault => cases hf

theorem readOfGroup_error {a : Archive} {group : UInt32} {key : Option Xtea.Key}
    {packed : Except StoreError Bytes} {e : ArchiveError} (h : a.openGroup group key packed = .error e)
    (file : UInt16) :
    a.ReadOfGroup group file (.error e) (.error e) := by
  refine ⟨fun _ hf => ?keys, fun _ hf => ?only, fun _ hf => ?listed, fun hf => ?unlisted,
    fun _ hf _ => ?fault⟩
  case keys => cases hf
  case only => cases hf
  case listed => cases hf
  case unlisted =>
    rcases hf with ⟨_, hf⟩ | ⟨reason, hf⟩
    · cases hf
    · cases hf
      exact absurd rfl (openGroup_ne_stripes h reason)
  case fault =>
    cases hf
    rfl

theorem read_of_readGroup {W S : Type} [Store W S] (w : W) (s : S) (a : Archive) (group : UInt32)
    (file : UInt16) (key : Option Xtea.Key) :
    a.ReadOfGroup group file (a.readGroup w s group key).1 (a.read w s group file key).1 := by
  rw [readGroup_fst, read_fst]
  cases ho : a.openGroup group key (Store.read w s a.id group).1 with
  | error e => exact readOfGroup_error ho file
  | ok p =>
    obtain ⟨entry, data⟩ := p
    have he := entry_of_openGroup ho
    cases entry with
    | some g => exact readOfGroup_files he file data
    | none => exact readOfGroup_whole he file data

/-- **One file and all files.** Taking a single file out of the data of a group agrees with splitting all of
it, whatever the data is, and so does reading through an archive, whatever the store answers. -/
theorem read_agrees :
    (∀ (input : Bytes) (ids : List UInt32) (id : UInt32), Stripes.FileOfSplit input ids id) ∧
    ∀ {W S : Type} [Store W S] (w : W) (s : S) (a : Archive) (group : UInt32) (file : UInt16)
      (key : Option Xtea.Key),
      a.ReadOfGroup group file (a.readGroup w s group key).1 (a.read w s group file key).1 :=
  ⟨Stripes.fileOfSplit, read_of_readGroup⟩

end Js5.Archive
