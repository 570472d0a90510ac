import Js5.Proofs.ReferenceIndex

/-! # The capacities and the name table of an index that is read back -/

namespace Js5.ReferenceIndex

/-! ## Capacities -/

theorem le_of_getLast? {ids : List UInt32} {last : UInt32} (h : ids.Pairwise (· < ·))
    (hl : ids.getLast? = some last) :
    ∀ id ∈ ids, id ≤ last := by
  obtain ⟨init, rfl⟩ := List.getLast?_eq_some_iff.mp hl
  intro id hid
  rcases List.mem_append.mp hid with hid | hid
  · exact UInt32.le_of_lt ((List.pairwise_append.mp h).2.2 id hid last (List.mem_singleton_self last))
  · rw [List.mem_singleton.mp hid]
    exact UInt32.le_refl last

theorem Group.capacity_eq {g : Group} (h : g.fileIds.Pairwise (· < ·)) :
    g.capacity = (g.fileIds.map fun id => id.toNat + 1).max?.getD 0 := by
  have hl : g.fileIds.getLast? = g.files.getLast?.map File.id := List.getLast?_map
  unfold capacity
  cases hf : g.files.getLast? with
  | none => simp [fileIds, List.getLast?_eq_none_iff.mp hf]
  | some file =>
    rw [hf] at hl
    have hmax : (g.fileIds.map fun id => id.toNat + 1).max? = some (file.id.toNat + 1) := by
      rw [List.max?_eq_some_iff]
      refine ⟨List.mem_map.mpr ⟨file.id, List.mem_of_getLast? hl, rfl⟩, fun n hn => ?_⟩
      obtain ⟨id, hid, rfl⟩ := List.mem_map.mp hn
      exact Nat.succ_le_succ (UInt32.le_iff_toNat_le.mp (le_of_getLast? h hl id hid))
    rw [hmax]
    rfl

theorem Group.capacity_of_ascending {g : Group} (h : g.fileIds.Pairwise (· < ·)) :
    (g.files = [] → g.capacity = 0) ∧
    (g.files ≠ [] →
      ∃ file ∈ g.files, (∀ other ∈ g.files, other.id ≤ file.id) ∧ g.capacity = file.id.toNat + 1) := by
  unfold capacity
  cases hl : g.files.getLast? with
  | none =>
    rw [List.getLast?_eq_none_iff] at hl
    exact ⟨fun _ => rfl, fun hn => absurd hl hn⟩
  | some file =>
    have hf := List.mem_of_getLast? hl
    refine ⟨fun hn => by simp [hn] at hl, fun _ => ⟨file, hf, fun other ho => ?_, rfl⟩⟩
    have hlast : g.fileIds.getLast? = some file.id := by rw [fileIds, List.getLast?_map, hl, Option.map_some]
    exact le_of_getLast? h hlast other.id (List.mem_map_of_mem ho)

theorem Group.capacity_lt {g : Group} (h : ∀ file ∈ g.files, file.id ≠ 0xffffffff) : g.capacity < 2 ^ 32 := by
  unfold capacity
  cases hl : g.files.getLast? with
  | none => decide
  | some file =>
    have hne := h file (List.mem_of_getLast? hl)
    rw [← UInt32.toNat_inj.ne] at hne
    have hlt := file.id.toNat_lt
    simp only [UInt32.reduceToNat] at hne
    show file.id.toNat + 1 < 2 ^ 32
    omega

/-! ## Names -/

theorem find?_reverse_le {groups : List Group} (h : groups.Pairwise (·.id < ·.id)) {p : Group → Bool}
    {g : Group} (hg : groups.reverse.find? p = some g) :
    ∀ other ∈ groups, p other = true → other.id ≤ g.id := by
  obtain ⟨-, later, earlier, hr, hlater⟩ := List.find?_eq_some_iff_append.mp hg
  rw [← List.pairwise_reverse, hr] at h
  intro other ho hp
  rw [← List.mem_reverse, hr] at ho
  rcases List.mem_append.mp ho with ho | ho
  · exact absurd hp (by simpa using hlater other ho)
  · rcases List.mem_cons.mp ho with rfl | ho
    · exact UInt32.le_refl _
    · exact UInt32.le_of_lt ((List.pairwise_cons.mp (List.pairwise_append.mp h).2.1).1 other ho)

theorem named?_eq_some_iff {index : ReferenceIndex} (h : (index.groups.map Group.id).Pairwise (· < ·))
    {hash id : UInt32} :
    index.named? hash = some id ↔ index.hasNames = true ∧
      ∃ g ∈ index.groups, g.id = id ∧ g.nameHash.toUInt32 = hash ∧
        ∀ other ∈ index.groups, other.nameHash.toUInt32 = hash → other.id ≤ id := by
  have hle := fun g => find?_reverse_le (List.pairwise_map.mp h)
    (p := fun g => decide (g.nameHash.toUInt32 = hash)) (g := g)
  unfold named?
  cases index.hasNames with
  | false => simp
  | true =>
    rw [if_pos rfl]
    constructor
    · intro hn
      obtain ⟨g, hg, rfl⟩ := Option.map_eq_some_iff.mp hn
      have hm := List.mem_reverse.mp (List.mem_of_find?_eq_some hg)
      refine ⟨rfl, g, hm, rfl, by simpa using List.find?_some hg, fun other ho hp => ?_⟩
      exact hle g hg other ho (decide_eq_true hp)
    · rintro ⟨-, g, hg, rfl, hp, hmax⟩
      cases hf : index.groups.reverse.find? (fun g => decide (g.nameHash.toUInt32 = hash)) with
      | none =>
        have := List.find?_eq_none.mp hf g (List.mem_reverse.mpr hg)
        exact absurd (decide_eq_true hp) this
      | some g' =>
        have hp' : g'.nameHash.toUInt32 = hash := by simpa using List.find?_some hf
        have hm := List.mem_reverse.mp (List.mem_of_find?_eq_some hf)
        have hid := UInt32.le_antisymm (hmax g' hm hp') (hle g' hf g hg (decide_eq_true hp))
        exact congrArg some hid

/-! ## Writing and reading -/

/-- **Written and read.** An index that fits its format is read from the bytes that it is written as,
whatever comes after them. What is read has the capacities and the name table that go with its groups. -/
theorem read_written {index : ReferenceIndex} (h : index.Fits) (extra : Bytes) :
    ofBytes (index.toBytes ++ extra) = .ok index ∧
    (∀ g ∈ index.groups, g.capacity = (g.fileIds.map fun id => id.toNat + 1).max?.getD 0) ∧
    ∀ hash id, index.named? hash = some id ↔ index.hasNames = true ∧
      ∃ g ∈ index.groups, g.id = id ∧ g.nameHash.toUInt32 = hash ∧
        ∀ other ∈ index.groups, other.nameHash.toUInt32 = hash → other.id ≤ id :=
  ⟨ofBytes_toBytes h extra, fun g hg => Group.capacity_eq (h.fileIds g hg).ascending,
    fun _ _ => named?_eq_some_iff h.ids.ascending⟩

def wideIndex : ReferenceIndex where
  protocol := 7
  version := -5
  hasNames := true
  hasDigests := true
  hasLengths := true
  hasUncompressedChecksums := true
  groups :=
    [⟨0x7fff, 77, 9, 0xdeadbeef, 1, 2, 3, List.replicate 64 1, []⟩,
      ⟨0x80000010, 77, 10, 4, 5, 6, 0xffffffff, List.replicate 64 2, [⟨5, -2⟩, ⟨0x9005, 8⟩]⟩]

theorem fits_wideIndex : wideIndex.Fits where
  protocol := .inr (.inr rfl)
  version h := by cases h
  ids := ⟨by decide, by decide, by decide, by decide, by decide, by decide, trivial⟩
  fileIds := by
    intro g hg
    simp only [wideIndex, List.mem_cons, List.not_mem_nil, or_false] at hg
    rcases hg with rfl | rfl
    · exact ⟨by decide, by decide, trivial⟩
    · exact ⟨by decide, by decide, by decide, by decide, by decide, by decide, trivial⟩
  names h := by cases h
  digests := by decide
  lengths h := by cases h
  uncompressedChecksums h := by cases h

theorem read_written_wide :
    wideIndex.Fits ∧ ofBytes (wideIndex.toBytes ++ [1, 2, 3]) = .ok wideIndex ∧
      wideIndex.groups.map Group.capacity = [0, 0x9006] ∧ wideIndex.named? 77 = some 0x80000010 := by
  obtain ⟨hread, hcapacity, hname⟩ := read_written fits_wideIndex [1, 2, 3]
  refine ⟨fits_wideIndex, hread, ?_, ?_⟩
  · rw [List.map_congr_left hcapacity]
    rfl
  · rw [hname]
    decide

end Js5.ReferenceIndex
