import Mathlib.Data.List.Induction
import Mathlib.Data.Nat.Digits.Defs
import Js5.Cursor.Request
import Js5.Proofs.Cursor.Smart

/-! # What a cursor replies to a request, and where it stands then, from its bytes and position alone -/

namespace Js5

namespace Bytes

/-- The number that bytes spell to base 256, the last of them being the units. -/
def spelled (b : Bytes) : Nat := Nat.ofDigits 256 (b.reverse.map UInt8.toNat)

theorem toNat_eq_spelled (b : Bytes) : toNat b = spelled b := by
  induction b using List.reverseRecOn with
  | nil => rfl
  | append_singleton b x ih =>
    unfold spelled
    rw [toNat_concat, ih, List.reverse_append]
    show _ = Nat.ofDigits 256 (x.toNat :: b.reverse.map UInt8.toNat)
    rw [Nat.ofDigits_cons, Nat.add_comm]
    rfl

end Bytes

namespace Cursor

namespace Request

/-- How many bytes are needed, where `ahead` are all that are left. -/
def width (ahead : Bytes) : Request → Nat
  | .u8 | .peek => 1
  | .u16 => 2
  | .u24 => 3
  | .u32 | .i32 => 4
  | .smart =>
    match ahead with
    | [] => 1
    | x :: _ => if x.toNat < 128 then 2 else 4
  | .skip n | .take n => n.toNat
  | .seek _ => 0
  | .takeRest => ahead.length

/-- What is made of the bytes that were needed. Of a number of two bytes or four the top bit of four is no
part. -/
def value (part : Bytes) : Request → Value
  | .u8 | .u16 | .u24 | .u32 | .peek => .number part.spelled
  | .i32 => .number ((part.spelled : Int).bmod (2 ^ 32))
  | .smart => .number (part.spelled % 2 ^ 31 : Nat)
  | .skip _ | .seek _ => .moved
  | .take _ | .takeRest => .bytes part

def lack? (data : Bytes) (position : Nat) : Request → Option OutOfBounds
  | .seek wanted => if wanted.toNat ≤ data.length then none else some ⟨wanted.toNat, 0, 0⟩
  | r =>
    let width := r.width (data.drop position)
    if position + width ≤ data.length then none else some ⟨position, width, data.length - position⟩

def target (data : Bytes) (position : Nat) : Request → Nat
  | .seek wanted => wanted.toNat
  | .peek => position
  | r => position + r.width (data.drop position)

def outcome (data : Bytes) (position : Nat) (r : Request) : Except OutOfBounds Value × Nat :=
  match r.lack? data position with
  | some e => (.error e, position)
  | none => (.ok (r.value ((data.drop position).take (r.width (data.drop position)))), r.target data position)

variable {data : Bytes} {position : Nat} {r : Request}

theorem outcome_of_lack {e : OutOfBounds} (h : r.lack? data position = some e) :
    r.outcome data position = (.error e, position) := by
  unfold outcome
  rw [h]

theorem outcome_of_no_lack (h : r.lack? data position = none) : r.outcome data position =
    (.ok (r.value ((data.drop position).take (r.width (data.drop position)))), r.target data position) := by
  unfold outcome
  rw [h]

end Request

/-- A cursor does with a request what its bytes and its position say. -/
structure Answers (c : Cursor) (r : Request) : Prop where
  reply : (c.ask r).1 = (r.outcome c.data.toList c.position).1
  position : (c.ask r).2.position = (r.outcome c.data.toList c.position).2
  data : (c.ask r).2.data = c.data

variable {c : Cursor} {r : Request}

theorem ask_of_ok {c' : Cursor} {v : Value} (h : r.read c = .ok (v, c')) : c.ask r = (.ok v, c') := by
  unfold ask
  rw [h]

theorem ask_of_error {e : OutOfBounds} (h : r.read c = .error e) : c.ask r = (.error e, c) := by
  unfold ask
  rw [h]

theorem Answers.of_ok {c' : Cursor} {v : Value} (h : r.read c = .ok (v, c')) (hd : c'.data = c.data)
    (ho : r.outcome c.data.toList c.position = (.ok v, c'.position)) : c.Answers r where
  reply := by rw [ask_of_ok h, ho]
  position := by rw [ask_of_ok h, ho]
  data := by rw [ask_of_ok h, hd]

theorem Answers.of_error {e : OutOfBounds} (h : r.read c = .error e)
    (ho : r.lack? c.data.toList c.position = some e) : c.Answers r := by
  have ho' := Request.outcome_of_lack ho
  exact ⟨by rw [ask_of_error h, ho'], by rw [ask_of_error h, ho'], by rw [ask_of_error h]⟩

theorem drop_toList (c : Cursor) : c.data.toList.drop c.position = c.rest := rfl

theorem size_data (c : Cursor) : c.data.size = c.position + c.rest.length := by
  rw [length_rest]
  exact (Nat.add_sub_cancel' c.position_le).symm

theorem position_of_rest {c' : Cursor} {n : Nat} (hd : c'.data = c.data) (hr : c'.rest = c.rest.drop n)
    (hn : n ≤ c.rest.length) : c'.position = c.position + n := by
  have hsize := size_data c
  rw [← hd, size_data c', hr, List.length_drop] at hsize
  omega

theorem Answers.of_take {g : Bytes → Value} (w : Nat)
    (hr : r.read c = (do return g (← take w) : Read Value) c) (hw : r.width c.rest = w)
    (hl : r.lack? c.data.toList c.position =
      if c.position + r.width c.rest ≤ c.data.toList.length then none
      else some ⟨c.position, r.width c.rest, c.data.toList.length - c.position⟩)
    (ht : r.target c.data.toList c.position = c.position + r.width c.rest)
    (hv : ∀ part : Bytes, part.length = w → r.value part = g part) : c.Answers r := by
  rw [Array.length_toList, size_data, Nat.add_sub_cancel_left, hw] at hl
  rcases Nat.lt_or_ge c.rest.length w with h | h
  · have hlt := h
    rw [length_rest] at hlt
    refine .of_error (hr.trans (bind_of_error (take_of_lt hlt) _)) ?_
    rw [hl, if_neg (by omega), length_rest]
  · have hle := h
    rw [length_rest] at hle
    obtain ⟨c', hc', hd, hrest⟩ := take_of_le hle
    have hpart : (c.rest.take w).length = w := List.length_take_of_le h
    rw [if_pos (by omega)] at hl
    refine .of_ok (hr.trans (bind_of_ok hc' _)) hd ?_
    rw [Request.outcome_of_no_lack hl, ht, drop_toList, hw, hv _ hpart, position_of_rest hd hrest h]

/-! ## Each request -/

theorem bind_congr_at {α β : Type} {read read' : Read α} (h : read c = read' c) (f : α → Read β) :
    (read >>= f) c = (read' >>= f) c := by
  show (read c >>= fun p => f p.1 p.2) = _
  rw [h]
  rfl

theorem toNat_ofNat8 {b : Bytes} (h : b.length = 1) : (UInt8.ofNat (Bytes.toNat b)).toNat = b.spelled := by
  have hlt := Bytes.toNat_lt b
  rw [h] at hlt
  rw [UInt8.toNat_ofNat_of_lt' hlt, Bytes.toNat_eq_spelled]

theorem toNat_ofNat16 {b : Bytes} (h : b.length = 2) : (UInt16.ofNat (Bytes.toNat b)).toNat = b.spelled := by
  have hlt := Bytes.toNat_lt b
  rw [h] at hlt
  rw [UInt16.toNat_ofNat_of_lt' hlt, Bytes.toNat_eq_spelled]

theorem toNat_ofNat32 {b : Bytes} (h : b.length ≤ 4) : (UInt32.ofNat (Bytes.toNat b)).toNat = b.spelled := by
  have hlt := Nat.lt_of_lt_of_le (Bytes.toNat_lt b) (Nat.pow_le_pow_right (by decide) h)
  rw [UInt32.toNat_ofNat_of_lt' hlt, Bytes.toNat_eq_spelled]

theorem outcome_seek {data : Bytes} {wanted : UInt64} (h : wanted.toNat ≤ data.length) (position : Nat) :
    (Request.seek wanted).outcome data position = (.ok .moved, wanted.toNat) :=
  Request.outcome_of_no_lack (if_pos h)

theorem answers_seek (c : Cursor) (wanted : UInt64) : c.Answers (.seek wanted) := by
  by_cases h : wanted.toNat ≤ c.data.size
  · have hseek : seek wanted.toNat c = .ok ((), ⟨c.data, wanted.toNat, h⟩) := dif_pos h
    exact .of_ok (bind_of_ok hseek _) rfl (outcome_seek h _)
  · have hseek : seek wanted.toNat c = .error ⟨wanted.toNat, 0, 0⟩ := dif_neg h
    exact .of_error (bind_of_error hseek _) (if_neg h)

theorem answers_smart (c : Cursor) : c.Answers .smart := by
  cases hc : c.rest with
  | nil =>
    refine .of_error (bind_of_error (smart_of_nil hc) _) ?_
    simp [Request.lack?, Request.width, drop_toList, size_data, hc]
  | cons x tail =>
    rcases Nat.lt_or_ge x.toNat 128 with hx | hx
    · refine .of_take 2 (g := fun b => .number (UInt16.ofNat (Bytes.toNat b)).toUInt32.toNat) ?_ ?_
        rfl rfl fun b h => ?_
      · refine (bind_congr_at (smart_of_short hc hx) _).trans ?_
        simp only [u16, bind_assoc, pure_bind]
      · rw [hc, Request.width, if_pos hx]
      · have hlt := Bytes.toNat_lt b
        rw [h, Bytes.toNat_eq_spelled] at hlt
        rw [UInt16.toNat_toUInt32, toNat_ofNat16 h, Request.value, Nat.mod_eq_of_lt (by omega)]
    · refine .of_take 4 (g := fun b => .number (UInt32.ofNat (Bytes.toNat b) &&& 0x7fffffff).toNat)
        ?_ ?_ rfl rfl
        fun b h => ?_
      · refine (bind_congr_at (smart_of_long hc hx) _).trans ?_
        simp only [u32, bind_assoc, pure_bind]
      · rw [hc, Request.width, if_neg (Nat.not_lt.mpr hx)]
      · rw [and_low_toNat, toNat_ofNat32 (Nat.le_of_eq h), Request.value]

theorem answers_peek (c : Cursor) : c.Answers .peek := by
  cases hc : c.rest with
  | nil =>
    refine .of_error (bind_of_error (peek_of_nil hc) _) ?_
    simp [Request.lack?, Request.width, size_data, hc]
  | cons x tail =>
    have hx : Bytes.spelled [x] = x.toNat := by simp [Bytes.spelled]
    have hlack : Request.peek.lack? c.data.toList c.position = none := by
      refine if_pos ?_
      rw [Array.length_toList, size_data, hc]
      exact Nat.add_le_add_left (Nat.le_add_left ..) _
    refine .of_ok (bind_of_ok (peek_eq hc) _) rfl ?_
    rw [Request.outcome_of_no_lack hlack, drop_toList, hc, ← hx]
    rfl

theorem answers_takeRest (c : Cursor) : c.Answers .takeRest := by
  obtain ⟨c', h⟩ := takeRest_eq c
  obtain ⟨-, rfl⟩ := Prod.mk.inj (Except.ok.inj h)
  have hend : c.position + c.rest.length = c.data.size := (size_data c).symm
  have hlack : Request.takeRest.lack? c.data.toList c.position = none := if_pos (Nat.le_of_eq hend)
  refine .of_ok (bind_of_ok h _) rfl ?_
  rw [Request.outcome_of_no_lack hlack, drop_toList]
  show (Except.ok (Value.bytes (c.rest.take c.rest.length)), c.position + c.rest.length) = _
  rw [List.take_length, hend]

/-- Bytes and position say what a cursor replies to any request, and where it stands then. -/
theorem answers (c : Cursor) (r : Request) : c.Answers r := by
  cases r with
  | u8 =>
    refine .of_take 1 (g := fun b => .number (UInt8.ofNat (Bytes.toNat b)).toNat) ?_ rfl rfl rfl fun b h => ?_
    · simp only [Request.read, u8, bind_assoc, pure_bind]
    · rw [toNat_ofNat8 h, Request.value]
  | u16 =>
    refine .of_take 2 (g := fun b => .number (UInt16.ofNat (Bytes.toNat b)).toNat)
      ?_ rfl rfl rfl fun b h => ?_
    · simp only [Request.read, u16, bind_assoc, pure_bind]
    · rw [toNat_ofNat16 h, Request.value]
  | u24 =>
    refine .of_take 3 (g := fun b => .number (UInt32.ofNat (Bytes.toNat b)).toNat)
      ?_ rfl rfl rfl fun b h => ?_
    · simp only [Request.read, u24, bind_assoc, pure_bind]
    · rw [toNat_ofNat32 (by omega), Request.value]
  | u32 =>
    refine .of_take 4 (g := fun b => .number (UInt32.ofNat (Bytes.toNat b)).toNat)
      ?_ rfl rfl rfl fun b h => ?_
    · simp only [Request.read, u32, bind_assoc, pure_bind]
    · rw [toNat_ofNat32 (by omega), Request.value]
  | i32 =>
    refine .of_take 4 (g := fun b => .number (UInt32.ofNat (Bytes.toNat b)).toInt32.toInt)
      ?_ rfl rfl rfl fun b h => ?_
    · simp only [Request.read, i32, u32, bind_assoc, pure_bind]
    · rw [UInt32.toInt32_ofNat', Int32.toInt_ofNat', Bytes.toNat_eq_spelled]
      rfl
  | smart => exact answers_smart c
  | peek => exact answers_peek c
  | skip n =>
    refine .of_take n.toNat (g := fun _ => .moved) ?_ rfl rfl rfl fun _ _ => rfl
    simp only [Request.read, skip, bind_assoc, pure_bind]
  | seek wanted => exact answers_seek c wanted
  | take n => exact .of_take n.toNat rfl rfl rfl rfl fun _ _ => rfl
  | takeRest => exact answers_takeRest c

theorem data_through (c : Cursor) (requests : List Request) : (c.through requests).data = c.data := by
  induction requests generalizing c with
  | nil => rfl
  | cons r requests ih => exact (ih (c.ask r).2).trans (answers c r).data

end Cursor

end Js5
