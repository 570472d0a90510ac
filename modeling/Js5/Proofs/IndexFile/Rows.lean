import Js5.Proofs.IndexFile
import Js5.Proofs.SectorChain.Write
import Mathlib.Data.List.Basic

/-! # Any bytes that come in sixes are an index file -/

namespace Js5.IndexFile

def row (b : Bytes) (place : Nat) : IndexRecord :=
  ⟨UInt32.ofNat (Bytes.toNat ((b.drop (place * recordSize + 3)).take 3)),
    UInt32.ofNat (Bytes.toNat ((b.drop (place * recordSize)).take 3))⟩

def ofRows (b : Bytes) : IndexFile := ⟨((List.range (b.length / recordSize)).map (row b)).toArray⟩

theorem toNat_word {b : Bytes} (hb : b.length = 3) :
    (UInt32.ofNat (Bytes.toNat b)).toNat = Bytes.toNat b := by
  have h := Bytes.toNat_lt b
  rw [hb] at h
  exact UInt32.toNat_ofNat_of_lt' (Nat.lt_trans h (by decide))

theorem ofNat_word {b : Bytes} (hb : b.length = 3) :
    Bytes.ofNat 3 (UInt32.ofNat (Bytes.toNat b)).toNat = b := by
  have h := Bytes.ofNat_toNat b
  rwa [hb, ← toNat_word hb] at h

theorem word_lt {b : Bytes} (hb : b.length = 3) : (UInt32.ofNat (Bytes.toNat b)).toNat < 2 ^ 24 := by
  have h := Bytes.toNat_lt b
  rw [hb] at h
  rwa [toNat_word hb]

section
variable {b : Bytes} {place : Nat} (h : (place + 1) * recordSize ≤ b.length)
include h

theorem length_field {offset : Nat} (ho : offset ≤ 3) :
    ((b.drop (place * recordSize + offset)).take 3).length = 3 := by
  unfold recordSize at h ⊢
  rw [List.length_take, List.length_drop]
  omega

theorem fits_row : (row b place).Fits :=
  ⟨word_lt (length_field h (Nat.zero_le 3)), word_lt (length_field h (Nat.le_refl 3))⟩

theorem toBytes_row : (row b place).toBytes = (b.drop (place * recordSize)).take recordSize := by
  have hl := length_field h (Nat.zero_le 3)
  have hs := length_field h (Nat.le_refl 3)
  calc (row b place).toBytes
      = (b.drop (place * recordSize)).take 3 ++ (b.drop (place * recordSize + 3)).take 3 :=
        congrArg₂ (· ++ ·) (ofNat_word hl) (ofNat_word hs)
    _ = (b.drop (place * recordSize)).take (3 + 3) := by rw [List.take_add, List.drop_drop]
    _ = (b.drop (place * recordSize)).take recordSize := rfl

end

theorem succ_mul_le {b : Bytes} {place : Nat} (h : place ∈ List.range (b.length / recordSize)) :
    (place + 1) * recordSize ≤ b.length :=
  Nat.le_trans (Nat.mul_le_mul_right _ (List.mem_range.mp h)) (Nat.div_mul_le_self ..)

theorem flatMap_row {b : Bytes} (h : recordSize ∣ b.length) :
    ((List.range (b.length / recordSize)).map (row b)).flatMap IndexRecord.toBytes = b := by
  have hrow : (List.range (b.length / recordSize)).flatMap (fun place => (row b place).toBytes) =
      (List.range (b.length / recordSize)).flatMap fun place =>
        (b.drop (place * recordSize)).take recordSize :=
    List.flatMap_congr fun place hp => toBytes_row (succ_mul_le hp)
  rw [List.flatMap_map, hrow, SectorChain.flatMap_take_drop, Nat.div_mul_cancel h, List.take_length]

theorem parse_eq (archive : UInt8) (b : Bytes) :
    parse archive b =
      if recordSize ∣ b.length then .ok (ofRows b) else .error (.invalidFormat archive b.length) := by
  by_cases h : recordSize ∣ b.length
  · rw [if_pos h]
    have hfits : ∀ r ∈ (List.range (b.length / recordSize)).map (row b), r.Fits := by
      intro r hr
      obtain ⟨place, hp, rfl⟩ := List.mem_map.mp hr
      exact fits_row (succ_mul_le hp)
    have hp := parse_flatMap archive hfits
    rwa [flatMap_row h] at hp
  · have hm : b.length % recordSize ≠ 0 := fun hm => h (Nat.dvd_of_mod_eq_zero hm)
    unfold parse
    rw [if_neg h, if_pos hm]

end Js5.IndexFile
