import Js5.Proofs.Cursor

/-! # Numbers of two bytes or four: the first byte is looked at and stays unread -/

namespace Js5.Cursor

theorem peek_eq {c : Cursor} {x : UInt8} {tail : Bytes} (h : c.rest = x :: tail) : peek c = .ok (x, c) := by
  have hx : c.data[c.position]? = some x := by
    have := congrArg List.head? h
    simpa [rest] using this
  unfold peek
  rw [hx]

theorem peek_of_nil {c : Cursor} (h : c.rest = []) : peek c = .error ⟨c.position, 1, 0⟩ := by
  have hx : c.data[c.position]? = none := by
    rw [← Array.getElem?_toList, ← List.head?_drop]
    exact congrArg List.head? h
  unfold peek
  rw [hx]

theorem and_top_ne_zero (x : UInt8) : (x &&& 0x80 != 0) = decide (128 ≤ x.toNat) := by
  have h : ∀ n < 256, (UInt8.ofNat n &&& 0x80 != 0) = decide (128 ≤ n) := by decide +kernel
  simpa using h x.toNat x.toNat_lt

theorem and_low_toNat (n : UInt32) : (n &&& 0x7fffffff).toNat = n.toNat % 2 ^ 31 := by
  have hm : (0x7fffffff : UInt32).toNat = 2 ^ 31 - 1 := rfl
  rw [UInt32.toNat_and, hm, Nat.and_two_pow_sub_one_eq_mod]

theorem smart_of_nil {c : Cursor} (h : c.rest = []) : smart c = .error ⟨c.position, 1, 0⟩ :=
  bind_of_error (peek_of_nil h) _

theorem smart_of_long {c : Cursor} {x : UInt8} {tail : Bytes} (h : c.rest = x :: tail) (hx : 128 ≤ x.toNat) :
    smart c = (do return (← u32) &&& 0x7fffffff : Read UInt32) c := by
  unfold smart
  rw [bind_of_ok (peek_eq h), and_top_ne_zero, if_pos (decide_eq_true hx)]

theorem smart_of_short {c : Cursor} {x : UInt8} {tail : Bytes} (h : c.rest = x :: tail) (hx : x.toNat < 128) :
    smart c = (do return (← u16).toUInt32 : Read UInt32) c := by
  unfold smart
  rw [bind_of_ok (peek_eq h), and_top_ne_zero, if_neg (by simpa using hx)]

end Js5.Cursor
