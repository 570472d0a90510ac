import Js5.IndexFile.Writer
import Js5.Proofs.Cursor

/-! # An index file is its records, written one behind the other -/

namespace Js5

structure IndexRecord.Fits (r : IndexRecord) : Prop where
  length : r.length.toNat < 2 ^ 24
  sector : r.sector.toNat < 2 ^ 24

namespace IndexFile

open Cursor (Consumes)

theorem consumes_readRecord {r : IndexRecord} (h : r.Fits) : Consumes readRecord r.toBytes r :=
  (Cursor.consumes_u24_ofNat h.length).bind
    ((Cursor.consumes_u24_ofNat h.sector).map fun sector => IndexRecord.mk sector r.length)

theorem consumes_readRecords :
    ∀ (records : List IndexRecord) (done : Array IndexRecord), (∀ r ∈ records, r.Fits) →
    Consumes (readRecords done records.length) (records.flatMap IndexRecord.toBytes) (done ++ records.toArray)
  | [], done, _ => by
    rw [Array.append_empty]
    exact Cursor.consumes_pure done
  | r :: records, done, h => by
    have ih := consumes_readRecords records (done.push r) fun r' hr => h r' (List.mem_cons_of_mem r hr)
    have hd : done ++ (r :: records).toArray = done.push r ++ records.toArray := by simp
    rw [List.flatMap_cons, hd]
    exact (consumes_readRecord (h r (List.mem_cons_self ..))).bind ih

theorem length_toBytes (r : IndexRecord) : r.toBytes.length = recordSize := by
  simp [IndexRecord.toBytes, recordSize]

theorem length_flatMap_toBytes (records : List IndexRecord) :
    (records.flatMap IndexRecord.toBytes).length = recordSize * records.length := by
  induction records with
  | nil => rfl
  | cons r records ih =>
    rw [List.flatMap_cons, List.length_append, ih, length_toBytes, List.length_cons,
      Nat.mul_succ, Nat.add_comm]

theorem parse_flatMap (archive : UInt8) {records : List IndexRecord} (h : ∀ r ∈ records, r.Fits) :
    parse archive (records.flatMap IndexRecord.toBytes) = .ok ⟨records.toArray⟩ := by
  have hr := (consumes_readRecords records #[] h).run' []
  rw [List.append_nil, Array.empty_append] at hr
  have hl := length_flatMap_toBytes records
  have hm : (records.flatMap IndexRecord.toBytes).length % recordSize = 0 := by rw [hl, Nat.mul_mod_right]
  have hd : (records.flatMap IndexRecord.toBytes).length / recordSize = records.length := by
    rw [hl, Nat.mul_div_cancel_left _ (by decide : 0 < recordSize)]
  unfold parse
  rw [if_neg (not_not_intro hm), hd, hr]

/-! ## The groups in use -/

theorem get?_eq_some_iff {f : IndexFile} {group : UInt32} {r : IndexRecord} :
    f.get? group = some r ↔ f.records[group.toNat]? = some r ∧ r.sector ≠ 0 := by
  simp [get?, IndexRecord.isUnused]

theorem mem_groups {f : IndexFile} {group : UInt32} : group ∈ f.groups ↔
    ∃ place r, f.records[place]? = some r ∧ r.sector ≠ 0 ∧ UInt32.ofNat place = group := by
  unfold groups
  simp only [List.mem_map, List.mem_filter, Prod.exists, List.mk_mem_zipIdx_iff_getElem?,
    Array.getElem?_toList]
  constructor
  · intro ⟨r, place, ⟨hp, hu⟩, hg⟩
    exact ⟨place, r, hp, by simpa [IndexRecord.isUnused] using hu, hg⟩
  · intro ⟨place, r, hp, hu, hg⟩
    exact ⟨r, place, ⟨hp, by simpa [IndexRecord.isUnused] using hu⟩, hg⟩

section
variable {f : IndexFile} (h : f.size ≤ 2 ^ 32)
include h

theorem toNat_place {place : Nat} (hp : place < f.size) : (UInt32.ofNat place).toNat = place :=
  UInt32.toNat_ofNat_of_lt' (Nat.lt_of_lt_of_le hp h)

/-- Listing goes by the places of the records and looking up by the id, which come to the same as long as
there are no more places than ids. -/
theorem mem_groups_iff {group : UInt32} : group ∈ f.groups ↔ (f.get? group).isSome := by
  rw [mem_groups, Option.isSome_iff_exists]
  constructor
  · intro ⟨place, r, hp, hu, hg⟩
    obtain ⟨hlt, -⟩ := Array.getElem?_eq_some_iff.mp hp
    refine ⟨r, get?_eq_some_iff.mpr ⟨?_, hu⟩⟩
    rw [← hg, toNat_place h hlt, hp]
  · intro ⟨r, hr⟩
    obtain ⟨hp, hu⟩ := get?_eq_some_iff.mp hr
    exact ⟨group.toNat, r, hp, hu, UInt32.ofNat_toNat⟩

theorem pairwise_groups : f.groups.Pairwise (· < ·) := by
  have hplaces : f.records.toList.zipIdx.Pairwise fun p q => p.2 < q.2 := by
    rw [← List.pairwise_map, List.zipIdx_map_snd]
    exact List.pairwise_lt_range' 1
  unfold groups
  rw [List.pairwise_map]
  refine (hplaces.filter _).imp_of_mem fun {p q} hp hq hpq => ?_
  have hlt : ∀ p ∈ f.records.toList.zipIdx.filter (!·.1.isUnused), p.2 < f.size := by
    intro p hp
    have hm := List.mem_zipIdx_iff_getElem?.mp (List.mem_filter.mp hp).1
    obtain ⟨hlt, -⟩ := List.getElem?_eq_some_iff.mp hm
    simpa [size] using hlt
  rw [UInt32.lt_iff_toNat_lt, toNat_place h (hlt p hp), toNat_place h (hlt q hq)]
  exact hpq

end

/-! ## Written index files -/

def capacity (groups : List (UInt32 × IndexRecord)) : Nat := groups.foldl (fun n g => max n (g.1.toNat + 1)) 0

theorem foldl_max_le {groups : List (UInt32 × IndexRecord)} {n bound : Nat} (hn : n ≤ bound)
    (h : ∀ g ∈ groups, g.1.toNat < bound) : groups.foldl (fun n g => max n (g.1.toNat + 1)) n ≤ bound := by
  induction groups generalizing n with
  | nil => exact hn
  | cons g groups ih =>
    have hg := h g (List.mem_cons_self ..)
    have hm : max n (g.1.toNat + 1) ≤ bound := by omega
    exact ih hm fun g' hg' => h g' (List.mem_cons_of_mem g hg')

theorem le_foldl_max (groups : List (UInt32 × IndexRecord)) (n : Nat) :
    n ≤ groups.foldl (fun n g => max n (g.1.toNat + 1)) n ∧
      ∀ g ∈ groups, g.1.toNat < groups.foldl (fun n g => max n (g.1.toNat + 1)) n := by
  induction groups generalizing n with
  | nil => exact ⟨Nat.le_refl n, fun g hg => by cases hg⟩
  | cons g groups ih =>
    obtain ⟨hn, h⟩ := ih (max n (g.1.toNat + 1))
    rw [List.foldl_cons]
    refine ⟨by omega, fun g' hg' => ?_⟩
    cases hg' with
    | head => omega
    | tail _ hg' => exact h g' hg'

def slots (groups : List (UInt32 × IndexRecord)) : List IndexRecord :=
  (List.range (capacity groups)).map fun g => (groups.lookup (UInt32.ofNat g)).getD .unused

theorem ofGroups_eq (groups : List (UInt32 × IndexRecord)) :
    ofGroups groups = (slots groups).flatMap IndexRecord.toBytes := by
  unfold slots
  rw [List.flatMap_map]
  rfl

theorem mem_of_lookup {α β : Type} [BEq α] [LawfulBEq α] {key : α} {value : β} {l : List (α × β)}
    (h : l.lookup key = some value) : (key, value) ∈ l := by
  obtain ⟨before, after, rfl, -⟩ := List.lookup_eq_some_iff.mp h
  simp

variable {archive : UInt8} {groups : List (UInt32 × IndexRecord)}

theorem parse_ofGroups (h : ∀ g ∈ groups, g.2.Fits) :
    parse archive (ofGroups groups) = .ok ⟨(slots groups).toArray⟩ := by
  rw [ofGroups_eq]
  refine parse_flatMap archive fun r hr => ?_
  obtain ⟨n, -, rfl⟩ := List.mem_map.mp hr
  cases hl : groups.lookup (UInt32.ofNat n) with
  | none => exact ⟨by decide, by decide⟩
  | some r => exact h _ (mem_of_lookup hl)

theorem size_slots_le : IndexFile.size ⟨(slots groups).toArray⟩ ≤ 2 ^ 32 := by
  have hl : (slots groups).length = capacity groups := by simp [slots]
  unfold IndexFile.size
  rw [List.size_toArray, hl]
  exact foldl_max_le (Nat.zero_le (2 ^ 32)) fun g _ => g.1.toNat_lt

theorem get?_slots (h : ∀ g ∈ groups, g.2.sector ≠ 0) (group : UInt32) :
    IndexFile.get? ⟨(slots groups).toArray⟩ group = groups.lookup group := by
  have hi : (⟨(slots groups).toArray⟩ : IndexFile).records[group.toNat]? =
      if group.toNat < capacity groups then some ((groups.lookup group).getD .unused) else none := by
    unfold slots
    by_cases hc : group.toNat < capacity groups
    · simp [hc]
    · simp [hc]
  unfold get?
  rw [hi]
  cases hl : groups.lookup group with
  | none =>
    split
    · simp [IndexRecord.isUnused, IndexRecord.unused]
    · rfl
  | some r =>
    have hm := mem_of_lookup hl
    have hc : group.toNat < capacity groups := (le_foldl_max groups 0).2 _ hm
    have hr : r.isUnused = false := decide_eq_false (h _ hm)
    simp [hc, hr]

end IndexFile

end Js5
