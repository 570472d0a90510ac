import Mathlib.Data.List.Induction
import Mathlib.Data.Nat.Digits.Defs
import Mathlib.Data.Nat.ModEq
import Js5.NameHash

/-!
# Hashes of names

Since 31 has no factor in common with the modulus, what two names end in alike can be taken off both.
-/

namespace Js5

theorem hashBytes_concat (b : Bytes) (x : UInt8) : hashBytes (b ++ [x]) = 31 * hashBytes b + x.toUInt32 := by
  unfold hashBytes
  rw [List.foldl_append]
  rfl

/-- The hash is a polynomial at 31, of which the last byte is the constant term. -/
theorem toNat_hashBytes (b : Bytes) :
    (hashBytes b).toNat = Nat.ofDigits 31 (b.reverse.map UInt8.toNat) % 2 ^ 32 := by
  induction b using List.reverseRecOn with
  | nil => rfl
  | append_singleton b x ih =>
    rw [hashBytes_concat, UInt32.toNat_add, UInt32.toNat_mul, ih, UInt8.toNat_toUInt32, List.reverse_append]
    show _ = Nat.ofDigits 31 (x.toNat :: b.reverse.map UInt8.toNat) % 2 ^ 32
    have h31 : UInt32.toNat 31 = 31 := rfl
    rw [Nat.ofDigits_cons, h31]
    omega

/-! ## Without products -/

/-- The hash with shifts, which lose their high bits, and differences, which wrap around, in place of
products. -/
def hashByShifts (b : Bytes) : UInt32 := b.foldl (fun h x => (h <<< 5) - h + x.toUInt32) 0

theorem shiftLeft_sub_self (h : UInt32) : (h <<< 5) - h = 31 * h := by
  have hlt := h.toNat_lt
  have h31 : UInt32.toNat 31 = 31 := rfl
  have hshift : 2 ^ (UInt32.toNat 5 % 32) = 32 := rfl
  apply UInt32.toNat_inj.mp
  rw [UInt32.toNat_sub, UInt32.toNat_shiftLeft, UInt32.toNat_mul, h31, Nat.shiftLeft_eq, hshift]
  omega

theorem hashByShifts_eq (b : Bytes) : hashByShifts b = hashBytes b := by
  unfold hashByShifts hashBytes
  simp only [shiftLeft_sub_self]

/-! ## Common endings -/

theorem toNat_hashBytes_append (a b : Bytes) :
    (hashBytes (a ++ b)).toNat = ((hashBytes a).toNat * 31 ^ b.length + (hashBytes b).toNat) % 2 ^ 32 := by
  have hlen : (b.reverse.map UInt8.toNat).length = b.length := by
    rw [List.length_map, List.length_reverse]
  rw [toNat_hashBytes, toNat_hashBytes, toNat_hashBytes, List.reverse_append, List.map_append,
    Nat.ofDigits_append, hlen, Nat.add_comm, Nat.mul_comm]
  exact (((Nat.mod_modEq _ _).mul_right _).add (Nat.mod_modEq _ _)).symm

theorem hashBytes_append_right_inj {a b : Bytes} (s : Bytes) :
    hashBytes (a ++ s) = hashBytes (b ++ s) ↔ hashBytes a = hashBytes b := by
  rw [← UInt32.toNat_inj, ← UInt32.toNat_inj, toNat_hashBytes_append, toNat_hashBytes_append]
  constructor
  · intro h
    have hprod : (hashBytes a).toNat * 31 ^ s.length ≡ (hashBytes b).toNat * 31 ^ s.length [MOD 2 ^ 32] :=
      Nat.ModEq.add_right_cancel' _ h
    -- 31 is odd, so that its powers can be cancelled.
    have hcoprime : Nat.Coprime (2 ^ 32) (31 ^ s.length) := Nat.Coprime.pow_right _ (by decide)
    exact (Nat.ModEq.cancel_right_of_coprime hcoprime hprod).eq_of_lt_of_lt (hashBytes a).toNat_lt
      (hashBytes b).toNat_lt
  · intro h
    rw [h]

theorem hashBytes_ne_of_ne (front back : Bytes) {x y : UInt8} (h : x ≠ y) :
    hashBytes (front ++ x :: back) ≠ hashBytes (front ++ y :: back) := by
  rw [List.append_cons, List.append_cons front y]
  intro he
  have hlast := (hashBytes_append_right_inj back).mp he
  rw [hashBytes_concat, hashBytes_concat, UInt32.add_right_inj] at hlast
  exact h (UInt8.toUInt32_inj.mp hlast)

/-! ## Near names -/

/-- Bytes as many as others, of which exactly one is another. -/
def OneByteApart (a b : Bytes) : Prop := a.length = b.length ∧ ∃! i : Nat, a[i]? ≠ b[i]?

theorem OneByteApart.exists_split {a b : Bytes} (h : OneByteApart a b) : ∃ front back x y,
    a = front ++ x :: back ∧ b = front ++ y :: back ∧ x ≠ y := by
  obtain ⟨hlen, i, hi, honly⟩ := h
  have hsame : ∀ j, j ≠ i → a[j]? = b[j]? := fun j hj => Classical.not_not.mp fun hne => hj (honly j hne)
  have hlt : i < a.length := by
    apply Nat.lt_of_not_le
    intro hle
    rw [List.getElem?_eq_none hle, List.getElem?_eq_none (hlen ▸ hle)] at hi
    exact hi rfl
  have hlt' : i < b.length := hlen ▸ hlt
  have hfront : a.take i = b.take i := by
    refine List.ext_getElem? fun j => ?_
    rw [List.getElem?_take, List.getElem?_take]
    split
    · exact hsame j (Nat.ne_of_lt ‹_›)
    · rfl
  have hback : a.drop (i + 1) = b.drop (i + 1) := by
    refine List.ext_getElem? fun j => ?_
    rw [List.getElem?_drop, List.getElem?_drop]
    exact hsame _ (by omega)
  refine ⟨a.take i, a.drop (i + 1), a[i], b[i], ?_, ?_, ?_⟩
  · rw [← List.drop_eq_getElem_cons, List.take_append_drop]
  · rw [hfront, hback, ← List.drop_eq_getElem_cons, List.take_append_drop]
  · rw [List.getElem?_eq_getElem hlt, List.getElem?_eq_getElem hlt'] at hi
    exact fun he => hi (congrArg some he)

theorem hashBytes_ne_of_oneByteApart {a b : Bytes} (h : OneByteApart a b) : hashBytes a ≠ hashBytes b := by
  obtain ⟨front, back, x, y, rfl, rfl, hne⟩ := h.exists_split
  exact hashBytes_ne_of_ne front back hne

theorem toUTF8_append (a b : String) :
    (a ++ b).toUTF8.data.toList = a.toUTF8.data.toList ++ b.toUTF8.data.toList := by
  show (a ++ b).toByteArray.data.toList = _
  rw [String.toByteArray_append, ByteArray.data_append, Array.toList_append]
  rfl

theorem length_toUTF8 (a : String) : a.toUTF8.data.toList.length = a.utf8ByteSize := rfl

/-- **Near names have different hashes.** Names with the same ending have the same hash just if they have it
without that ending, and names that differ in one byte only never have it. -/
theorem nameHash_separates :
    (∀ name : String, nameHash name = hashByShifts name.toUTF8.data.toList ∧
      (nameHash name).toNat = Nat.ofDigits 31 (name.toUTF8.data.toList.reverse.map UInt8.toNat) % 2 ^ 32) ∧
    (∀ a b : String, (nameHash (a ++ b)).toNat =
      ((nameHash a).toNat * 31 ^ b.utf8ByteSize + (nameHash b).toNat) % 2 ^ 32) ∧
    (∀ a b s : String, nameHash (a ++ s) = nameHash (b ++ s) ↔ nameHash a = nameHash b) ∧
    (∀ a b : String, OneByteApart a.toUTF8.data.toList b.toUTF8.data.toList → nameHash a ≠ nameHash b) := by
  refine ⟨fun name => ⟨(hashByShifts_eq _).symm, toNat_hashBytes _⟩, fun a b => ?_, fun a b s => ?_,
    fun a b => hashBytes_ne_of_oneByteApart⟩
  · unfold nameHash
    rw [toUTF8_append, toNat_hashBytes_append, length_toUTF8]
  · unfold nameHash
    rw [toUTF8_append, toUTF8_append, hashBytes_append_right_inj]

/-- Names that differ in the last byte of a letter of two bytes, alone and with one ending. -/
theorem nameHash_separates_accents :
    OneByteApart "pré".toUTF8.data.toList "prè".toUTF8.data.toList ∧ nameHash "pré" ≠ nameHash "prè" ∧
      nameHash ("pré" ++ ".dat") ≠ nameHash ("prè" ++ ".dat") := by
  obtain ⟨-, -, hending, hnear⟩ := nameHash_separates
  have hapart : OneByteApart "pré".toUTF8.data.toList "prè".toUTF8.data.toList := by
    refine ⟨rfl, 3, by decide, fun j hj => ?_⟩
    rcases Nat.lt_or_ge j 4 with hlt | hge
    · have hlast : ∀ j < 4, "pré".toUTF8.data.toList[j]? ≠ "prè".toUTF8.data.toList[j]? → j = 3 := by decide
      exact hlast j hlt hj
    · exact absurd ((List.getElem?_eq_none hge).trans (List.getElem?_eq_none hge).symm) hj
  exact ⟨hapart, hnear _ _ hapart, fun h => hnear _ _ hapart ((hending _ _ ".dat").mp h)⟩

end Js5
