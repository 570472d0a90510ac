import Js5.Proofs.ReferenceIndex.Lookup
import Js5.Proofs.ReferenceIndex.Spelling

/-!
# Names of groups

A name stands for the highest of the groups that have its hash, however the ids of the index were listed.
-/

namespace Js5.ReferenceIndex

theorem ascending_of_ofBytes {buf : Bytes} {index : ReferenceIndex} (h : ofBytes buf = .ok index) :
    (index.groups.map Group.id).Pairwise (· < ·) := by
  obtain ⟨s, -⟩ := spelling_of_ofBytes h
  rw [s.ids_eq]
  exact s.groups.isIds.ascending

theorem ascending_fileIds_of_ofBytes {buf : Bytes} {index : ReferenceIndex}
    (h : ofBytes buf = .ok index) {g : Group} (hg : g ∈ index.groups) : g.fileIds.Pairwise (· < ·) := by
  obtain ⟨s, -⟩ := spelling_of_ofBytes h
  have hm := List.mem_map_of_mem (f := Group.fileIds) hg
  rw [s.fileIds_eq] at hm
  obtain ⟨l, -, hl⟩ := List.mem_map.mp hm
  rw [← hl]
  exact l.isIds.ascending

/-- The group is the highest of those that have the name hash. -/
structure IsNamed (index : ReferenceIndex) (hash id : UInt32) : Prop where
  hasNames : index.hasNames = true
  has : ∃ g ∈ index.groups, g.id = id ∧ g.nameHash.toUInt32 = hash
  highest : ∀ g ∈ index.groups, g.nameHash.toUInt32 = hash → g.id ≤ id

/-- The name table as it is filled: the groups are entered in ascending order, and one with the name hash of
an earlier one takes its place. -/
def nameTable (index : ReferenceIndex) : List (UInt32 × UInt32) :=
  if index.hasNames then index.groups.foldl (fun table g => (g.nameHash.toUInt32, g.id) :: table) [] else []

variable {index : ReferenceIndex} {hash id : UInt32}

theorem lookup_map_groups (groups : List Group) (hash : UInt32) :
    (groups.map fun g => (g.nameHash.toUInt32, g.id)).lookup hash
      = (groups.find? fun g => g.nameHash.toUInt32 = hash).map Group.id := by
  induction groups with
  | nil => rfl
  | cons g groups ih =>
    rw [List.map_cons, List.lookup_cons, List.find?_cons, ih]
    by_cases h : hash = g.nameHash.toUInt32
    · rw [h, beq_self_eq_true, decide_eq_true rfl]
      rfl
    · rw [beq_false_of_ne h, decide_eq_false (Ne.symm h)]

theorem named?_eq_lookup (index : ReferenceIndex) (hash : UInt32) :
    index.named? hash = index.nameTable.lookup hash := by
  unfold named? nameTable
  split
  · rw [List.foldl_flip_cons_eq_append, List.append_nil, ← List.map_reverse, lookup_map_groups]
  · rfl

theorem named?_eq_some_iff_isNamed (h : (index.groups.map Group.id).Pairwise (· < ·)) :
    index.named? hash = some id ↔ index.IsNamed hash id := by
  rw [named?_eq_some_iff h]
  constructor
  · rintro ⟨hn, g, hg, hid, hh, hmax⟩
    exact ⟨hn, ⟨g, hg, hid, hh⟩, hmax⟩
  · rintro ⟨hn, ⟨g, hg, hid, hh⟩, hmax⟩
    exact ⟨hn, g, hg, hid, hh, hmax⟩

theorem named?_eq_none_iff : index.named? hash = none ↔
    (index.hasNames = true → ∀ g ∈ index.groups, g.nameHash.toUInt32 ≠ hash) := by
  unfold named?
  cases index.hasNames with
  | false => simp
  | true => simp

end Js5.ReferenceIndex
