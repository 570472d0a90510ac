import Mathlib.Data.List.Nodup
import Js5.Proofs.ReferenceIndex.Spelling

/-!
# What of an index is kept

How many groups and files there are said to be, and which, is looked up where the format has it, without
reading the index.
-/

namespace Js5.ReferenceIndex

/-! ## Where the format has things -/

section
variable (buf : Bytes)

def numberAt (place width : Nat) : Nat := Bytes.toNat ((buf.drop place).take width)

def numbersAt (place : Nat) : (count : Nat) → List Nat
  | 0 => []
  | count + 1 => numberAt buf place 2 :: numbersAt (place + 2) count

/-- The ids that are kept from a place on, two bytes for each, as the steps from one to the next. -/
def idsAt (last place : Nat) : (count : Nat) → List Nat
  | 0 => []
  | count + 1 =>
    let id := last + numberAt buf place 2
    id :: idsAt id (place + 2) count

def flagsPlace : Nat := if isVersioned (buf.headD 0) then 5 else 1

def flagsAt : Nat := numberAt buf (flagsPlace buf) 1

def groupCount : Nat := numberAt buf (flagsPlace buf + 1) 2

def groupIds : List Nat := idsAt buf 0 (flagsPlace buf + 3) (groupCount buf)

/-- How many bytes there are for each group between the ids and the numbers of files. -/
def rowSizeAt : Nat :=
  8 + (if (flagsAt buf).testBit 0 then 4 else 0) + (if (flagsAt buf).testBit 1 then digestSize else 0)
    + (if (flagsAt buf).testBit 2 then 8 else 0) + (if (flagsAt buf).testBit 3 then 4 else 0)

def countsPlace : Nat := flagsPlace buf + 3 + (2 + rowSizeAt buf) * groupCount buf

def fileCounts : List Nat := numbersAt buf (countsPlace buf) (groupCount buf)

def idListsAt (place : Nat) : (counts : List Nat) → List (List Nat)
  | [] => []
  | count :: counts => idsAt buf 0 place count :: idListsAt (place + 2 * count) counts

def fileIds : List (List Nat) := idListsAt buf (countsPlace buf + 2 * groupCount buf) (fileCounts buf)

end

/-! ## Bytes at a place -/

section
variable {buf a b : Bytes} {place : Nat}

theorem prefix_drop_append (h : a ++ b <+: buf.drop place) :
    a <+: buf.drop place ∧ b <+: buf.drop (place + a.length) := by
  obtain ⟨tail, ht⟩ := h
  refine ⟨⟨b ++ tail, by rw [← ht, List.append_assoc]⟩, ⟨tail, ?_⟩⟩
  rw [← List.drop_drop, ← ht, List.append_assoc, List.drop_left]

theorem numberAt_of_stands (h : b <+: buf.drop place) : numberAt buf place b.length = Bytes.toNat b := by
  unfold numberAt
  rw [← List.prefix_iff_eq_take.mp h]

end

/-! ## Ids of two bytes -/

section
variable {wide : Bool} {buf b : Bytes} {place : Nat} (hw : wide = false)
include hw

theorem IsId.eq_writeId {n : Nat} (h : IsId wide n b) : b = writeId wide n := by
  cases h with
  | narrow => rfl
  | _ => cases hw

theorem length_writeId (n : Nat) : (writeId wide n).length = 2 := by
  subst hw
  exact Bytes.length_ofNat 2 n

theorem IsId.numberAt_eq {n : Nat} (h : IsId wide n b) (hb : b <+: buf.drop place) :
    numberAt buf place 2 = n := by
  cases h with
  | narrow hn =>
    have := numberAt_of_stands hb
    rwa [Bytes.length_ofNat, Bytes.toNat_ofNat_of_lt hn] at this
  | _ => cases hw

theorem IsIds.eq_writeIds {last : Nat} {ids : List UInt32} (h : IsIds wide last ids b) :
    b = writeIds wide last ids := by
  induction h with
  | nil => rfl
  | cons _ h _ ih => rw [writeIds, h.eq_writeId hw, ih]

theorem length_writeIds (last : Nat) (ids : List UInt32) :
    (writeIds wide last ids).length = 2 * ids.length := by
  induction ids generalizing last with
  | nil => rfl
  | cons id ids ih =>
    rw [writeIds, List.length_append, length_writeId hw, ih, List.length_cons]
    omega

theorem IsIds.idsAt_eq {last : Nat} {ids : List UInt32} (h : IsIds wide last ids b)
    (hb : b <+: buf.drop place) :
    idsAt buf last place ids.length = ids.map UInt32.toNat := by
  induction h generalizing place with
  | nil => rfl
  | cons hle h _ ih =>
    obtain ⟨hhead, htail⟩ := prefix_drop_append hb
    rw [h.eq_writeId hw, length_writeId hw] at htail
    rw [List.length_cons, idsAt, h.numberAt_eq hw hhead, Nat.add_sub_of_le hle, ih htail]
    rfl

theorem IdList.length_count (l : IdList wide) : l.count.length = 2 := by
  rw [l.isId.eq_writeId hw, length_writeId hw]

theorem IdList.length_steps (l : IdList wide) : l.steps.length = 2 * l.ids.length := by
  rw [l.isIds.eq_writeIds hw, length_writeIds hw]

theorem numbersAt_counts (lists : List (IdList wide)) (hb : lists.flatMap IdList.count <+: buf.drop place) :
    numbersAt buf place lists.length = lists.map (·.ids.length) := by
  induction lists generalizing place with
  | nil => rfl
  | cons l lists ih =>
    obtain ⟨hhead, htail⟩ := prefix_drop_append hb
    rw [l.length_count hw] at htail
    rw [List.length_cons, numbersAt, l.isId.numberAt_eq hw hhead, ih htail]
    rfl

theorem length_flatMap_count (lists : List (IdList wide)) :
    (lists.flatMap IdList.count).length = 2 * lists.length := by
  induction lists with
  | nil => rfl
  | cons l lists ih =>
    rw [List.flatMap_cons, List.length_append, l.length_count hw, ih, List.length_cons]
    omega

theorem idListsAt_steps (lists : List (IdList wide)) (hb : lists.flatMap IdList.steps <+: buf.drop place) :
    idListsAt buf place (lists.map (·.ids.length)) = lists.map (·.ids.map UInt32.toNat) := by
  induction lists generalizing place with
  | nil => rfl
  | cons l lists ih =>
    obtain ⟨hhead, htail⟩ := prefix_drop_append hb
    rw [l.length_steps hw] at htail
    rw [List.map_cons, idListsAt, l.isIds.idsAt_eq hw hhead, ih htail]
    rfl

end

/-! ## Flags -/

theorem and_bits (x : UInt8) : (x &&& 1 != 0) = x.toNat.testBit 0 ∧ (x &&& 2 != 0) = x.toNat.testBit 1 ∧
    (x &&& 4 != 0) = x.toNat.testBit 2 ∧ (x &&& 8 != 0) = x.toNat.testBit 3 := by
  have h : ∀ n < 256, (UInt8.ofNat n &&& 1 != 0) = n.testBit 0 ∧ (UInt8.ofNat n &&& 2 != 0) = n.testBit 1 ∧
      (UInt8.ofNat n &&& 4 != 0) = n.testBit 2 ∧ (UInt8.ofNat n &&& 8 != 0) = n.testBit 3 := by decide +kernel
  simpa using h x.toNat x.toNat_lt

theorem flags_of_bits {x : UInt8} (h : x.toNat < 16) :
    (if x &&& 1 != 0 then 1 else 0) + (if x &&& 2 != 0 then 2 else 0) + (if x &&& 4 != 0 then 4 else 0)
      + (if x &&& 8 != 0 then 8 else 0) = x := by
  have hall : ∀ n < 16, (if UInt8.ofNat n &&& 1 != 0 then (1 : UInt8) else 0)
      + (if UInt8.ofNat n &&& 2 != 0 then 2 else 0) + (if UInt8.ofNat n &&& 4 != 0 then 4 else 0)
      + (if UInt8.ofNat n &&& 8 != 0 then 8 else 0) = UInt8.ofNat n := by
    decide +kernel
  simpa using hall x.toNat h

section
variable {index : ReferenceIndex} (s : Spelling index)

theorem Spelling.flags_eq (h : s.flags.toNat < 16) : index.flags = s.flags := by
  unfold ReferenceIndex.flags
  rw [s.hasNames, s.hasDigests, s.hasLengths, s.hasUncompressedChecksums, flags_of_bits h]

theorem Spelling.rowSize_eq {buf : Bytes} (h : flagsAt buf = s.flags.toNat) :
    index.rowSize = rowSizeAt buf := by
  obtain ⟨h₀, h₁, h₂, h₃⟩ := and_bits s.flags
  unfold rowSize rowSizeAt
  rw [s.hasNames, s.hasDigests, s.hasLengths, s.hasUncompressedChecksums, h, h₀, h₁, h₂, h₃]
  omega

/-! ## Whole indexes -/

theorem toBytes_eq_columns (index : ReferenceIndex) : index.toBytes = [index.protocol]
    ++ (if isVersioned index.protocol then writeSigned index.version else [])
    ++ ([index.flags] ++ writeId (isWide index.protocol) index.groups.length
      ++ writeIds (isWide index.protocol) 0 (index.groups.map Group.id) ++ index.columns
      ++ writeColumn true index.groups (fun g => writeId (isWide index.protocol) g.files.length)
      ++ writeColumn true index.groups (fun g => writeIds (isWide index.protocol) 0 g.fileIds)
      ++ index.fileNames) := by
  unfold toBytes columns fileNames
  simp only [List.append_assoc]

theorem Spelling.ids_of_nodup (h : s.groups.ids.Nodup) : index.groups.map Group.id = s.groups.ids :=
  s.ids_eq.trans (eraseReps_of_nodup h)

theorem Spelling.map_fileIds {α : Type} (h : ∀ l ∈ s.files, l.ids.Nodup) (f : List UInt32 → α) :
    index.groups.map (fun g => f g.fileIds) = s.files.map fun l => f l.ids := by
  have hids := s.fileIds_eq.trans (List.map_congr_left fun l hl => eraseReps_of_nodup (h l hl))
  have := congrArg (List.map f) hids
  rwa [List.map_map, List.map_map] at this

theorem Spelling.toBytes_eq (hw : isWide index.protocol = false) (hflags : s.flags.toNat < 16)
    (hids : s.groups.ids.Nodup) (hfiles : ∀ l ∈ s.files, l.ids.Nodup) : index.toBytes = [index.protocol]
      ++ (if isVersioned index.protocol then writeSigned index.version else []) ++ s.behind := by
  have hids := s.ids_of_nodup hids
  have hcount : writeId (isWide index.protocol) index.groups.length = s.groups.count := by
    rw [s.groups.isId.eq_writeId hw, ← hids, List.length_map]
  have hsteps : writeIds (isWide index.protocol) 0 (index.groups.map Group.id) = s.groups.steps := by
    rw [s.groups.isIds.eq_writeIds hw, hids]
  have hcounts : writeColumn true index.groups (fun g => writeId (isWide index.protocol) g.files.length)
      = s.files.flatMap IdList.count := by
    have hlength : ∀ g : Group, g.files.length = g.fileIds.length := fun g => by simp [Group.fileIds]
    simp only [hlength]
    unfold writeColumn
    rw [if_pos rfl, List.flatMap_def, s.map_fileIds hfiles fun ids => writeId _ ids.length]
    exact congrArg s.files.flatMap (funext fun l => (l.isId.eq_writeId hw).symm)
  have hlists : writeColumn true index.groups (fun g => writeIds (isWide index.protocol) 0 g.fileIds)
      = s.files.flatMap IdList.steps := by
    unfold writeColumn
    rw [if_pos rfl, List.flatMap_def, s.map_fileIds hfiles]
    exact congrArg s.files.flatMap (funext fun l => (l.isIds.eq_writeIds hw).symm)
  rw [toBytes_eq_columns, s.flags_eq hflags, hcount, hsteps, hcounts, hlists]
  rfl

theorem Spelling.behind_at {buf tail : Bytes} (h : buf = [index.protocol]
    ++ (if isVersioned index.protocol then writeSigned index.version else []) ++ s.behind ++ tail) :
    s.behind <+: buf.drop (flagsPlace buf) := by
  have hplace : flagsPlace buf
      = ([index.protocol]
        ++ (if isVersioned index.protocol then writeSigned index.version else [])).length := by
    rw [h]
    unfold flagsPlace
    cases hv : isVersioned index.protocol <;> simp [hv, writeSigned, writeWord]
  rw [hplace, h, List.append_assoc, List.drop_left]
  exact List.prefix_append ..

variable {buf : Bytes} (hw : isWide index.protocol = false) (hb : s.behind <+: buf.drop (flagsPlace buf))
include hw hb

theorem Spelling.groups_at : flagsAt buf = s.flags.toNat ∧ groupCount buf = s.groups.ids.length ∧
    groupIds buf = s.groups.ids.map UInt32.toNat := by
  unfold behind at hb
  simp only [List.append_assoc] at hb
  obtain ⟨hflags, hb⟩ := prefix_drop_append hb
  obtain ⟨hcount, hb⟩ := prefix_drop_append hb
  obtain ⟨hsteps, -⟩ := prefix_drop_append hb
  rw [s.groups.length_count hw] at hsteps
  have hgroups : groupCount buf = s.groups.ids.length := s.groups.isId.numberAt_eq hw hcount
  refine ⟨?_, hgroups, ?_⟩
  · refine (numberAt_of_stands hflags).trans ?_
    simp [Bytes.toNat]
  · unfold groupIds
    rw [hgroups]
    exact s.groups.isIds.idsAt_eq hw hsteps

theorem Spelling.files_at (hnodup : s.groups.ids.Nodup) : fileCounts buf = s.files.map (·.ids.length) ∧
    fileIds buf = s.files.map (·.ids.map UInt32.toNat) := by
  obtain ⟨hflags, hgroups, -⟩ := s.groups_at hw hb
  have hlength : index.groups.length = s.groups.ids.length := by
    have := congrArg List.length s.ids_eq
    rwa [IdList.entries, eraseReps_of_nodup hnodup, List.length_map] at this
  have hfiles : s.files.length = s.groups.ids.length := by
    have := congrArg List.length s.fileIds_eq
    rw [List.length_map, List.length_map] at this
    exact this.symm.trans hlength
  -- the flags, the number of the groups, their ids and the columns come before the numbers of files
  unfold behind at hb
  simp only [List.append_assoc] at hb
  obtain ⟨-, hb⟩ := prefix_drop_append hb
  obtain ⟨-, hb⟩ := prefix_drop_append hb
  obtain ⟨-, hb⟩ := prefix_drop_append hb
  obtain ⟨-, hb⟩ := prefix_drop_append hb
  obtain ⟨hcounts, hb⟩ := prefix_drop_append hb
  obtain ⟨hsteps, -⟩ := prefix_drop_append hb
  have hplace : flagsPlace buf + [s.flags].length + s.groups.count.length + s.groups.steps.length +
    index.columns.length
      = countsPlace buf := by
    rw [s.groups.length_count hw, s.groups.length_steps hw, s.length_columns, s.rowSize_eq hflags, hlength]
    unfold countsPlace
    rw [hgroups, Nat.add_mul]
    simp only [List.length_singleton]
    omega
  rw [hplace] at hcounts hsteps
  rw [length_flatMap_count hw, hfiles, ← hgroups] at hsteps
  have hfileCounts : fileCounts buf = s.files.map (·.ids.length) := by
    unfold fileCounts
    rw [hgroups, ← hfiles]
    exact numbersAt_counts hw s.files hcounts
  refine ⟨hfileCounts, ?_⟩
  unfold ReferenceIndex.fileIds
  rw [hfileCounts]
  exact idListsAt_steps hw s.files hsteps

end

/-- **Every byte is in the index.** Where ids have two bytes each, flags are known ones and no id comes
twice, the bytes begin with the index as it is written, and numbers and ids are those that are listed. -/
theorem toBytes_prefix_of_ofBytes {buf : Bytes} {index : ReferenceIndex} (h : ofBytes buf = .ok index)
    (hprotocol : index.protocol = 5 ∨ index.protocol = 6) (hflags : flagsAt buf < 16)
    (hgroups : (groupIds buf).Nodup) (hfiles : ∀ ids ∈ fileIds buf, ids.Nodup) :
    index.toBytes <+: buf ∧ (∃ c, readIndex (.ofBytes buf) = .ok (index, c) ∧ index.toBytes ++ c.rest = buf) ∧
      groupCount buf = index.groups.length ∧
      fileCounts buf = index.groups.map (fun g => g.files.length) ∧
      groupIds buf = index.groups.map (fun g => g.id.toNat) ∧
      fileIds buf = index.groups.map fun g => g.files.map fun file => file.id.toNat := by
  have hw : isWide index.protocol = false := by
    rcases hprotocol with hp | hp <;> rw [hp] <;> rfl
  obtain ⟨s, c, hread, hbuf⟩ := spelling_of_ofBytes h
  have hb := s.behind_at hbuf
  obtain ⟨hflagsAt, hcount, hids⟩ := s.groups_at hw hb
  rw [hids] at hgroups
  have hgroups := List.Nodup.of_map _ hgroups
  obtain ⟨hcounts, hlists⟩ := s.files_at hw hb hgroups
  have hfiles : ∀ l ∈ s.files, l.ids.Nodup := by
    intro l hl
    rw [hlists] at hfiles
    exact List.Nodup.of_map _ (hfiles _ (List.mem_map_of_mem hl))
  have hfront : index.toBytes ++ c.rest = buf := by
    rw [s.toBytes_eq hw (hflagsAt ▸ hflags) hgroups hfiles, ← hbuf]
  refine ⟨⟨c.rest, hfront⟩, ⟨c, hread, hfront⟩, ?_, ?_, ?_, ?_⟩
  · rw [hcount, ← s.ids_of_nodup hgroups, List.length_map]
  · rw [hcounts, ← s.map_fileIds hfiles List.length]
    exact List.map_congr_left fun g _ => List.length_map ..
  · rw [hids, ← s.ids_of_nodup hgroups, List.map_map]
    rfl
  · rw [hlists, ← s.map_fileIds hfiles fun ids => ids.map UInt32.toNat]
    exact List.map_congr_left fun g _ => List.map_map ..

/-- Two groups with every column, of one file and of two, and a byte behind them. -/
theorem toBytes_prefix_of_ofBytes_full :
    let buf : Bytes := [6, 0xff, 0xff, 0xff, 0xfb, 15, 0, 2, 0, 3, 0, 4, 0, 0, 0, 1, 0xff, 0xff, 0xff, 0xfe,
        1, 2, 3, 4, 5, 6, 7, 8, 9, 10, 11, 12, 13, 14, 15, 16] ++ List.replicate 128 7 ++
      [0, 0, 0, 1, 0, 0, 0, 2, 0, 0, 0, 3, 0, 0, 0, 4, 0, 0, 0, 5, 0, 0, 0, 6, 0, 1, 0, 2, 0, 0, 0, 1,
        0, 5, 0, 0, 0, 1, 0, 0, 0, 2, 0, 0, 0, 3, 99]
    ∃ index, ofBytes buf = .ok index ∧ flagsAt buf = 15 ∧ index.toBytes <+: buf ∧ groupIds buf = [3, 7] ∧
      fileIds buf = [[0], [1, 6]] := by
  intro buf
  have hread : ofBytes buf = .ok ⟨6, -5, true, true, true, true,
      [⟨3, 1, 5, 0x01020304, 0x090a0b0c, 1, 2, List.replicate 64 7, [⟨0, 1⟩]⟩,
        ⟨7, -2, 6, 0x05060708, 0x0d0e0f10, 3, 4, List.replicate 64 7, [⟨1, 2⟩, ⟨6, 3⟩]⟩]⟩ := by
    decide +kernel
  have hflags : flagsAt buf = 15 := by decide +kernel
  have hgroups : groupIds buf = [3, 7] := by decide +kernel
  have hfiles : fileIds buf = [[0], [1, 6]] := by decide +kernel
  have hwritten := toBytes_prefix_of_ofBytes hread (.inr rfl) (hflags ▸ by decide) (hgroups ▸ by decide)
    (hfiles ▸ by decide)
  exact ⟨_, hread, hflags, hwritten.1, hgroups, hfiles⟩

end Js5.ReferenceIndex
