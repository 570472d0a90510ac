import Js5.Proofs.IndexFile.Rows
import Js5.Proofs.SectorChain.Faults
import Js5.Proofs.Store.Freezing

/-!
# Listing, looking up and reading agree

The list of an archive, the lookup of a group and the reading of its chain each tell in a way of their own
whether a record is in use.
-/

namespace Js5

/-! ## Records -/

namespace IndexFile

variable {archive : UInt8} {b : Bytes} {f : IndexFile}

theorem parse_eq_ok_iff : parse archive b = .ok f ↔ recordSize ∣ b.length ∧ ofRows b = f := by
  rw [parse_eq]
  by_cases h : recordSize ∣ b.length
  · simp [h]
  · simp [h]

theorem size_ofRows (b : Bytes) : (ofRows b).size = b.length / recordSize := by
  simp [ofRows, size]

theorem records_ofRows {place : Nat} (h : place < b.length / recordSize) :
    (ofRows b).records[place]? = some (row b place) := by
  simp [ofRows, h]

theorem row_toNat {place : Nat} (h : place < b.length / recordSize) :
    (row b place).length.toNat = Bytes.toNat ((b.drop (6 * place)).take 3) ∧
      (row b place).sector.toNat = Bytes.toNat ((b.drop (6 * place + 3)).take 3) := by
  have hle := succ_mul_le (List.mem_range.mpr h)
  unfold row
  rw [Nat.mul_comm 6 place]
  exact ⟨toNat_word (length_field hle (Nat.zero_le 3)), toNat_word (length_field hle (Nat.le_refl 3))⟩

end IndexFile

/-! ## Chains -/

def IsUnknown {α : Type} (r : Except StoreError α) : Prop :=
  ∃ archive group, r = .error (.unknownGroup archive group)

namespace DiskStore

variable {d : Directory} {s : DiskStore} {archive : UInt8} {group : UInt32} {f : IndexFile}

theorem not_isUnknown_readChain (r : IndexRecord) : ¬ IsUnknown (s.readChain archive group r) := by
  intro ⟨archive', group', h⟩
  obtain ⟨k, sector, -, hf⟩ := SectorChain.Source.read_eq_error_iff.mp h
  cases hf

theorem read_fst_of_load (h : (s.index.load d archive).1 = .ok f) (group : UInt32) :
    (s.read d archive group).1 =
    match f.get? group with
    | some r => s.readChain archive group r
    | none => .error (.unknownGroup archive group) := by
  rw [read_eq, IndexFiles.lookup_eq, h]
  cases hg : f.get? group <;> simp [Except.bind, hg]

theorem isUnknown_read_iff (h : (s.index.load d archive).1 = .ok f) :
    IsUnknown (s.read d archive group).1 ↔ f.get? group = none := by
  rw [read_fst_of_load h]
  cases hg : f.get? group with
  | some r => simpa using not_isUnknown_readChain r
  | none => simp [IsUnknown]

theorem read_fst_of_load_error {e : StoreError} (h : (s.index.load d archive).1 = .error e) (group : UInt32) :
    (s.read d archive group).1 = .error e := by
  rw [read_eq, IndexFiles.lookup_eq, h]
  rfl

/-! ## Lists -/

theorem list_eq (d : Directory) (s : DiskStore) (archive : UInt8) : s.list d archive =
    ((s.index.load d archive).1.map IndexFile.groups, { s with index := (s.index.load d archive).2 }) := rfl

theorem load_later (h : (s.index.load d archive).1 = .ok f) (later : Directory) :
    ((s.index.load d archive).2.load later archive).1 = .ok f := by
  rw [IndexFiles.load_fst, IndexFiles.lookup_loaded_of_load h]
  rfl

theorem hasArchive_later (h : (s.index.load d archive).1 = .ok f) (later : Directory) :
    (s.list d archive).2.hasArchive later archive = true := by
  simp [list_eq, hasArchive, IndexFiles.hasArchive, IndexFiles.lookup_loaded_of_load h]

/-- **What is listed can be read, and nothing else.** Where the list of an archive can be had, the archive is
there, and a group is listed if reading it, now or later, does not report it as unknown, as long as there
are no more records than ids; where the list fails, all reading fails alike. -/
theorem listed_iff_read :
    (∀ (archive : UInt8) (b : Bytes), b.length < 6 * 2 ^ 32 →
      ((∃ f, IndexFile.parse archive b = .ok f) ↔ 6 ∣ b.length) ∧
      ∀ f, IndexFile.parse archive b = .ok f →
        f.records.size = b.length / 6 ∧
        (∀ place < b.length / 6, ∃ r, f.records[place]? = some r ∧
          r.length.toNat = Bytes.toNat ((b.drop (6 * place)).take 3) ∧
          r.sector.toNat = Bytes.toNat ((b.drop (6 * place + 3)).take 3)) ∧
        (∀ group r, f.get? group = some r ↔ f.records[group.toNat]? = some r ∧ r.sector ≠ 0) ∧
        f.groups.Pairwise (· < ·) ∧
        ∀ group, group ∈ f.groups ↔ ∃ r, f.get? group = some r) ∧
    (∀ (d : Directory) (s t : DiskStore) (archive : UInt8),
      (∀ groups, s.list d archive = (.ok groups, t) →
        (∀ later, t.hasArchive later archive = true) ∧
        ((∀ f, (s.index.load d archive).1 = .ok f → f.size ≤ 2 ^ 32) →
          ∀ group, (group ∈ groups ↔ ¬ IsUnknown (s.read d archive group).1) ∧
            ∀ later, group ∈ groups ↔ ¬ IsUnknown (t.read later archive group).1)) ∧
      ∀ e, s.list d archive = (.error e, t) →
        ∀ group, (s.read d archive group).1 = .error e ∧ (t.read d archive group).1 = .error e) := by
  constructor
  · intro archive b hb
    have hsize : (IndexFile.ofRows b).size ≤ 2 ^ 32 := by
      rw [IndexFile.size_ofRows]
      unfold IndexFile.recordSize
      omega
    refine ⟨by simp [IndexFile.parse_eq_ok_iff, IndexFile.recordSize], fun f hf => ?_⟩
    obtain ⟨-, hf⟩ := IndexFile.parse_eq_ok_iff.mp hf
    subst hf
    refine ⟨IndexFile.size_ofRows b, ?_, fun _ _ => IndexFile.get?_eq_some_iff,
      IndexFile.pairwise_groups hsize, ?_⟩
    · intro place hp
      exact ⟨_, IndexFile.records_ofRows hp, IndexFile.row_toNat hp⟩
    · intro group
      rw [IndexFile.mem_groups_iff hsize, Option.isSome_iff_exists]
  · intro d s t archive
    constructor
    · intro groups hlist
      rw [list_eq, Prod.mk.injEq] at hlist
      obtain ⟨hgroups, ht⟩ := hlist
      obtain ⟨f, hf, hg⟩ := map_eq_ok hgroups
      subst hg ht
      refine ⟨hasArchive_later hf, fun hsize group => ?_⟩
      have hmem : group ∈ f.groups ↔ f.get? group ≠ none := by
        rw [IndexFile.mem_groups_iff (hsize f hf), Option.isSome_iff_ne_none]
      -- later on the index file is the one that has been loaded for the list
      refine ⟨by rw [hmem, isUnknown_read_iff hf], fun later => ?_⟩
      rw [hmem, isUnknown_read_iff (load_later hf later)]
    · intro e hlist group
      rw [list_eq, Prod.mk.injEq] at hlist
      obtain ⟨he, ht⟩ := hlist
      have hl := map_eq_error he
      subst ht
      refine ⟨read_fst_of_load_error hl group, ?_⟩
      apply read_fst_of_load_error
      rw [← hl]
      exact IndexFiles.load_load d s.index archive archive

/-- An unused slot that has a length, a group without bytes, and a group whose sector is not there: the last
two are listed, and of the last it is not said that there is no such group. -/
theorem listed_iff_read_missing_sector :
    let b : Bytes := [0, 0, 9, 0, 0, 0, 0, 0, 0, 0, 0, 5, 0, 0, 4, 0, 0, 7]
    let d : Directory := ⟨"/c", [(["main_file_cache.idx2"], some b)]⟩
    let s : DiskStore := ⟨"/c", .js5, #[], none, .ofRoot "/c"⟩
    (∃ f, IndexFile.parse 2 b = .ok f) ∧ (s.list d 2).1 = .ok [1, 2] ∧ IsUnknown (s.read d 2 0).1 ∧
      (s.read d 2 1).1 = .ok [] ∧ (s.read d 2 2).1 = .error (.sectorOutOfBounds 2 2 7) ∧
      ¬ IsUnknown (s.read d 2 2).1 := by
  intro b d s
  have hload : (s.index.load d 2).1 = .ok ⟨#[⟨0, 9⟩, ⟨5, 0⟩, ⟨7, 4⟩]⟩ := by decide +kernel
  have hlist : (s.list d 2).1 = .ok [1, 2] := by decide +kernel
  have hempty : (s.read d 2 1).1 = .ok [] := by decide +kernel
  have hbroken : (s.read d 2 2).1 = .error (.sectorOutOfBounds 2 2 7) := by decide +kernel
  obtain ⟨hparse, hstore⟩ := listed_iff_read
  have hsize : ∀ f, (s.index.load d 2).1 = .ok f → f.size ≤ 2 ^ 32 := by
    intro f hf
    rw [hload] at hf
    cases hf
    decide
  have hread := ((hstore d s (s.list d 2).2 2).1 [1, 2] (Prod.ext hlist rfl)).2 hsize
  refine ⟨(hparse 2 b (by decide)).1.mpr (by decide), hlist, ?_, hempty, hbroken, (hread 2).1.mp (by decide)⟩
  exact Classical.not_not.mp fun h => absurd ((hread 0).1.mpr h) (by decide)

end DiskStore

end Js5
