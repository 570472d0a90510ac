import Js5.Bytes
import Mathlib.Algebra.Ring.Nat

/-! # Reading a number of a fixed width and writing it undo each other -/

namespace Js5.Bytes

theorem toNat_append (a b : Bytes) : toNat (a ++ b) = toNat a * 256 ^ b.length + toNat b := by
  induction b generalizing a with
  | nil => simp
  | cons x b ih =>
    rw [List.append_cons, ih, toNat_concat, ← List.singleton_append, ih [x]]
    simp only [List.length_cons, List.length_append, toNat]
    grind

theorem toNat_cons (x : UInt8) (b : Bytes) : toNat (x :: b) = x.toNat * 256 ^ b.length + toNat b := by
  rw [← List.singleton_append, toNat_append]
  simp [toNat]

theorem toNat_lt (b : Bytes) : toNat b < 256 ^ b.length := by
  induction b with
  | nil => simp
  | cons x b ih =>
    have hx : (x.toNat + 1) * 256 ^ b.length ≤ 256 * 256 ^ b.length :=
      Nat.mul_le_mul_right _ x.toNat_lt
    rw [Nat.add_one_mul] at hx
    rw [toNat_cons, List.length_cons, Nat.pow_succ']
    omega

theorem toNat_ofNat (width n : Nat) : toNat (ofNat width n) = n % 256 ^ width := by
  induction width generalizing n with
  | zero => simp [ofNat, Nat.mod_one]
  | succ width ih =>
    have hx : (UInt8.ofNat n).toNat = n % 256 := by simp
    rw [ofNat, toNat_concat, ih, hx, Nat.pow_succ', Nat.mod_mul]
    exact Nat.add_comm ..

theorem toNat_ofNat_of_lt {width n : Nat} (h : n < 256 ^ width) : toNat (ofNat width n) = n := by
  rw [toNat_ofNat, Nat.mod_eq_of_lt h]

theorem toNat_inj : ∀ {a b : Bytes}, a.length = b.length → toNat a = toNat b → a = b
  | [], [], _, _ => rfl
  | x :: a, y :: b, hl, h => by
    have hl : a.length = b.length := Nat.succ.inj hl
    have ha := toNat_lt a
    have hb := toNat_lt b
    rw [toNat_cons, toNat_cons, hl] at h
    rw [hl] at ha
    have hx : x.toNat = y.toNat := by
      have := congrArg (· / 256 ^ b.length) h
      simpa [Nat.mul_comm _ (256 ^ b.length), Nat.mul_add_div (Nat.pow_pos (by decide : 0 < 256)),
        Nat.div_eq_of_lt ha, Nat.div_eq_of_lt hb] using this
    rw [hx] at h
    rw [UInt8.toNat_inj.mp hx, toNat_inj hl (Nat.add_left_cancel h)]

theorem ofNat_toNat (b : Bytes) : ofNat b.length (toNat b) = b :=
  toNat_inj (length_ofNat ..) (toNat_ofNat_of_lt (toNat_lt b))

end Js5.Bytes
