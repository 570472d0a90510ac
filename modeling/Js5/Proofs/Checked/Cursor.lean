import Js5.Proofs.Checked.Slices
import Js5.Proofs.Cursor.Asked
import Js5.Proofs.Cursor.Yields

/-!
# Cursors in place

A step in place that fails leaves the cursor where it was written last; sums and differences that do not fit
the machine, and parts that reach outside the bytes, come to nothing. Neither ever happens.
-/

namespace Js5

def difference? (m n : Nat) : Option Nat := if n ≤ m then some (m - n) else none

/-- Nothing but the steps keeps the position within the bytes. -/
structure Place where
  data : Bytes
  position : Nat

/-- A step in place. It may come to nothing; if it fails, what it has written before stays. -/
abbrev InPlace := ExceptT Cursor.NumberError (StateT Place Option)

namespace Place

open Cursor (NumberError Read Value)

def remaining? (p : Place) : Option Nat := difference? p.data.length p.position

/-! ## Steps -/

def seek (position : Nat) : InPlace Unit := fun p =>
  if position ≤ p.data.length then some (.ok (), { p with position })
  else some (.error (.outOfBounds ⟨position, 0, 0⟩), p)

def take (n : Nat) : InPlace Bytes := fun p => do
  let available ← p.remaining?
  if available < n then
    return (.error (.outOfBounds ⟨p.position, n, available⟩), p)
  let stop ← size? (p.position + n)
  let part ← p.data.slice? p.position stop
  return (.ok part, { p with position := stop })

def skip (n : Nat) : InPlace Unit := do
  let _ ← take n

def takeRest : InPlace Bytes := fun p => do
  let part ← p.data.slice? p.position p.data.length
  return (.ok part, { p with position := p.data.length })

def number (width : Nat) : InPlace Nat := do
  let part ← take width
  if part.length < width then
    throw .short
  return Bytes.toNat (part.take width)

def u8 : InPlace UInt8 := do
  return UInt8.ofNat (← number 1)

def u16 : InPlace UInt16 := do
  return UInt16.ofNat (← number 2)

def u24 : InPlace UInt32 := do
  return UInt32.ofNat (← number 3)

def u32 : InPlace UInt32 := do
  return UInt32.ofNat (← number 4)

def i32 : InPlace Int32 := do
  return (← u32).toInt32

def peek : InPlace UInt8 := fun p =>
  match p.data[p.position]? with
  | some x => some (.ok x, p)
  | none => some (.error (.outOfBounds ⟨p.position, 1, 0⟩), p)

def smart : InPlace UInt32 := do
  if (← peek) &&& 0x80 != 0 then
    return (← u32) &&& 0x7fffffff
  else
    return (← u16).toUInt32

/-! ## Requests -/

def answer : Cursor.Request → InPlace Value
  | .u8 => return .number (← u8).toNat
  | .u16 => return .number (← u16).toNat
  | .u24 => return .number (← u24).toNat
  | .u32 => return .number (← u32).toNat
  | .i32 => return .number (← i32).toInt
  | .smart => return .number (← smart).toNat
  | .peek => return .number (← peek).toNat
  | .skip n => do
    skip n.toNat
    return .moved
  | .seek position => do
    seek position.toNat
    return .moved
  | .take n => return .bytes (← take n.toNat)
  | .takeRest => return .bytes (← takeRest)

def ask? (p : Place) (r : Cursor.Request) : Option (Except NumberError Value × Place) := answer r p

def through? (p : Place) (requests : List Cursor.Request) : Option Place :=
  requests.foldlM (fun p r => (p.ask? r).map Prod.snd) p

/-! ## Steps are made whole or not at all -/

section
variable {α β : Type} {step : InPlace α} {f : α → InPlace β} {p p' : Place}

theorem bind_of_ok {v : α} (h : step p = some (.ok v, p')) : (step >>= f) p = f v p' := by
  show (step p >>= fun q => _) = _
  rw [h]
  rfl

theorem bind_of_error {e : NumberError} (h : step p = some (.error e, p')) :
    (step >>= f) p = some (.error e, p') := by
  show (step p >>= fun q => _) = _
  rw [h]
  rfl

def ofCursor (c : Cursor) : Place := ⟨c.data.toList, c.position⟩

/-- The step does at the place of any cursor what the reader does with the cursor. Where the reader fails
the step fails in the same way, and the place is what it was. -/
def Follows (step : InPlace α) (read : Read α) : Prop :=
  ∀ c : Cursor, c.data.size < UInt64.size →
    step (ofCursor c) = some (match read c with
      | .ok (v, c') => (.ok v, ofCursor c')
      | .error e => (.error (.outOfBounds e), ofCursor c))

variable {read : Read α}

/-- Behind a step that may have moved there must be none that fails. -/
theorem Follows.returns (h : Follows step read) {g : α → β}
    (hf : ∀ c c' v, read c = .ok (v, c') → f v = pure (g v)) :
    Follows (step >>= f) (do return g (← read)) := by
  intro c hc
  have hstep := h c hc
  cases hr : read c with
  | ok q =>
    rw [hr] at hstep
    rw [bind_of_ok hstep, hf c q.2 q.1 hr, Cursor.bind_of_ok hr]
    rfl
  | error e =>
    rw [hr] at hstep
    rw [bind_of_error hstep, Cursor.bind_of_error hr]

theorem Follows.map (h : Follows step read) (g : α → β) :
    Follows (do return g (← step)) (do return g (← read)) :=
  h.returns fun _ _ _ _ => rfl

theorem remaining?_ofCursor (c : Cursor) : (ofCursor c).remaining? = some c.remaining :=
  if_pos c.position_le

theorem follows_seek (position : Nat) : Follows (seek position) (Cursor.seek position) := by
  intro c _
  by_cases h : position ≤ c.data.size
  · have hread : Cursor.seek position c = .ok ((), ⟨c.data, position, h⟩) := dif_pos h
    rw [hread]
    exact if_pos h
  · have hread : Cursor.seek position c = .error ⟨position, 0, 0⟩ := dif_neg h
    rw [hread]
    exact if_neg h

theorem follows_take (n : Nat) : Follows (take n) (Cursor.take n) := by
  intro c hc
  have hsize := Cursor.size_data c
  have hleft := Cursor.length_rest c
  unfold take
  simp only [remaining?_ofCursor, Option.bind_eq_bind, Option.bind_some]
  rcases Nat.lt_or_ge c.remaining n with h | h
  · rw [if_pos h, Cursor.take_of_lt h]
    rfl
  · obtain ⟨c', ht, hd, hrest⟩ := Cursor.take_of_le h
    have hposition := Cursor.position_of_rest hd hrest (by omega)
    -- The sum is only made once what is asked for is known to be left, so that it is a place in the bytes.
    have hstop : size? (c.position + n) = some (c.position + n) := size?_of_lt (by omega)
    have hpart : Bytes.slice? c.data.toList c.position (c.position + n) = some (c.rest.take n) := by
      rw [Bytes.slice?_of_le (Nat.le_add_right ..) (by rw [Array.length_toList]; omega),
        Nat.add_sub_cancel_left]
      rfl
    rw [if_neg (Nat.not_lt.mpr h), ht]
    simp only [ofCursor, hstop, hpart, hd, hposition, Option.bind_some]
    rfl

theorem follows_takeRest : Follows takeRest Cursor.takeRest := by
  intro c _
  have hpart : Bytes.slice? c.data.toList c.position c.data.toList.length = some c.rest :=
    Bytes.slice?_length c.position_le
  obtain ⟨c', h⟩ := Cursor.takeRest_eq c
  obtain ⟨-, rfl⟩ := Prod.mk.inj (Except.ok.inj h)
  rw [h]
  simp only [takeRest, ofCursor, hpart, Option.bind_eq_bind, Option.bind_some]
  rfl

theorem follows_number (width : Nat) (g : Nat → α) :
    Follows (do return g (← number width)) (do return g (Bytes.toNat (← Cursor.take width))) := by
  have hnumber : Follows (number width) (do return Bytes.toNat (← Cursor.take width)) := by
    refine (follows_take width).returns fun c c' part h => ?_
    -- Here the step has moved already, but the part that was taken is as long as it was asked to be.
    obtain ⟨_, -, -, hlen⟩ := Cursor.yields_take width c c' part h
    rw [if_neg (Nat.not_lt.mpr (Nat.le_of_eq hlen.symm)), List.take_of_length_le (Nat.le_of_eq hlen)]
  have hread : (do return g (Bytes.toNat (← Cursor.take width)) : Read α) =
      do return g (← (do return Bytes.toNat (← Cursor.take width))) := by
    simp only [bind_assoc, pure_bind]
  rw [hread]
  exact hnumber.map g

theorem follows_u32 : Follows u32 Cursor.u32 := follows_number 4 UInt32.ofNat

theorem follows_peek : Follows peek Cursor.peek := by
  intro c _
  have hx : (ofCursor c).data[(ofCursor c).position]? = c.data[c.position]? := Array.getElem?_toList
  unfold peek Cursor.peek
  rw [hx]
  cases c.data[c.position]? with
  | some x => rfl
  | none => rfl

/-- A byte that is only looked at does not move the cursor, so that what comes behind it may fail. -/
theorem Follows.behind_peek {f : UInt8 → InPlace α} {g : UInt8 → Read α} (h : ∀ x, Follows (f x) (g x)) :
    Follows (peek >>= f) (Cursor.peek >>= g) := by
  intro c hc
  have hpeek := follows_peek c hc
  cases hrest : c.rest with
  | nil =>
    rw [Cursor.peek_of_nil hrest] at hpeek
    rw [bind_of_error hpeek, Cursor.bind_of_error (Cursor.peek_of_nil hrest)]
  | cons x tail =>
    rw [Cursor.peek_eq hrest] at hpeek
    rw [bind_of_ok hpeek, Cursor.bind_of_ok (Cursor.peek_eq hrest)]
    exact h x c hc

theorem follows_smart : Follows smart Cursor.smart := by
  refine .behind_peek fun x => ?_
  split
  · exact follows_u32.map _
  · exact (follows_number 2 UInt16.ofNat).map _

theorem follows_answer (r : Cursor.Request) : Follows (answer r) r.read := by
  cases r with
  | u8 => exact (follows_number 1 UInt8.ofNat).map _
  | u16 => exact (follows_number 2 UInt16.ofNat).map _
  | u24 => exact (follows_number 3 UInt32.ofNat).map _
  | u32 => exact follows_u32.map _
  | i32 => exact (follows_u32.map UInt32.toInt32).map _
  | smart => exact follows_smart.map _
  | peek => exact follows_peek.map _
  | skip n => exact ((follows_take n.toNat).map fun _ => ()).map _
  | seek position => exact (follows_seek position.toNat).map _
  | take n => exact (follows_take n.toNat).map _
  | takeRest => exact follows_takeRest.map _

end

/-! ## Runs -/

theorem ask?_ofCursor {c : Cursor} (hc : c.data.size < UInt64.size) (r : Cursor.Request) :
    (ofCursor c).ask? r = some ((c.ask r).1.mapError .outOfBounds, ofCursor (c.ask r).2) := by
  have h := follows_answer r c hc
  cases hr : r.read c with
  | ok q =>
    rw [hr] at h
    rw [Cursor.ask_of_ok hr]
    exact h
  | error e =>
    rw [hr] at h
    rw [Cursor.ask_of_error hr]
    exact h

theorem through?_ofCursor {c : Cursor} (hc : c.data.size < UInt64.size) (requests : List Cursor.Request) :
    (ofCursor c).through? requests = some (ofCursor (c.through requests)) := by
  induction requests generalizing c with
  | nil => rfl
  | cons r requests ih =>
    have hnext : (c.ask r).2.data.size < UInt64.size := by rwa [(Cursor.answers c r).data]
    unfold through?
    rw [List.foldlM_cons, ask?_ofCursor hc]
    exact ih hnext

theorem ofCursor_ask (c : Cursor) (r : Cursor.Request) :
    ofCursor (c.ask r).2 = ⟨c.data.toList, (r.outcome c.data.toList c.position).2⟩ := by
  unfold ofCursor
  rw [(Cursor.answers c r).position, (Cursor.answers c r).data]

theorem exists_ofCursor_eq {data : Bytes} {start : UInt64} (h : start.toNat ≤ data.length) :
    ∃ c, (Cursor.ofBytes data).ask (.seek start) = (.ok .moved, c) ∧ ofCursor c = ⟨data, start.toNat⟩ := by
  have hseek := Cursor.outcome_seek h 0
  have hreply := (Cursor.answers (.ofBytes data) (.seek start)).reply
  have hplace : ofCursor ((Cursor.ofBytes data).ask (.seek start)).2 =
      ⟨data, ((Cursor.Request.seek start).outcome data 0).2⟩ := ofCursor_ask (.ofBytes data) (.seek start)
  rw [hseek] at hplace
  exact ⟨_, Prod.ext (hreply.trans (congrArg Prod.fst hseek)) rfl, hplace⟩

end Place

namespace Cursor

/-- **Steps are made whole or not at all.** After any requests, the next is met just if what it needs is
there; if not it says where it stood, what it needed and what there was, and has not moved. In place, no sum
and no difference is too large. -/
theorem steps_whole_or_not {data : Bytes} (hsize : data.length < UInt64.size) {start : UInt64}
    (hstart : start.toNat ≤ data.length) (requests : List Request) :
    ∃ (c : Cursor) (position : Nat),
      (ofBytes data).ask (.seek start) = (.ok .moved, c) ∧
      (Place.mk data 0).ask? (.seek start) = some (.ok .moved, ⟨data, start.toNat⟩) ∧
      Place.ofCursor (c.through requests) = ⟨data, position⟩ ∧
      (Place.mk data start.toNat).through? requests = some ⟨data, position⟩ ∧
      position ≤ data.length ∧
      (c.through requests).remaining = data.length - position ∧
      (Place.mk data position).remaining? = some (data.length - position) ∧
      ∀ next : Request,
        ((c.through requests).ask next).1 = (next.outcome data position).1 ∧
        Place.ofCursor ((c.through requests).ask next).2 = ⟨data, (next.outcome data position).2⟩ ∧
        (Place.mk data position).ask? next =
          some ((next.outcome data position).1.mapError .outOfBounds,
            ⟨data, (next.outcome data position).2⟩) := by
  obtain ⟨c, hc, hplace⟩ := Place.exists_ofCursor_eq hstart
  have hbegin := Place.ask?_ofCursor (c := ofBytes data) hsize (.seek start)
  have hdata : c.data.toList = data := congrArg Place.data hplace
  subst hdata
  have hrun := Place.through?_ofCursor hsize requests
  have hstays := data_through c requests
  have hstands : Place.ofCursor (c.through requests) = ⟨c.data.toList, (c.through requests).position⟩ := by
    unfold Place.ofCursor
    rw [hstays]
  rw [hc, hplace] at hbegin
  rw [hplace, hstands] at hrun
  have hleft : (c.through requests).remaining = c.data.toList.length - (c.through requests).position := by
    unfold remaining
    rw [hstays]
    rfl
  have hleft? := Place.remaining?_ofCursor (c.through requests)
  rw [hstands, hleft] at hleft?
  refine ⟨c, (c.through requests).position, hc, hbegin, hstands, hrun, ?_, hleft, hleft?, fun next => ?_⟩
  · have hle := (c.through requests).position_le
    rwa [hstays] at hle
  · have hreply := (answers (c.through requests) next).reply
    have hbehind := Place.ofCursor_ask (c.through requests) next
    have hstep := Place.ask?_ofCursor (hstays ▸ hsize : (c.through requests).data.size < UInt64.size) next
    rw [hstays] at hreply hbehind
    rw [hstands, hreply, hbehind] at hstep
    exact ⟨hreply, hbehind, hstep⟩

/-- A number of four bytes that is cut short and a length that no sum could hold are refused, and a number
of two bytes is then read where the cursor still stands. -/
theorem steps_whole_or_not_cut_short :
    let data : Bytes := [0, 0x80, 1, 2]
    (Place.mk data 1).through? [.smart, .skip 0xffffffffffffffff, .u16] = some ⟨data, 3⟩ ∧
      (Place.mk data 3).ask? .u24 = some (.error (.outOfBounds ⟨3, 3, 1⟩), ⟨data, 3⟩) ∧
      (Place.mk data 3).ask? .peek = some (.ok (.number 2), ⟨data, 3⟩) ∧
      (Place.mk data 3).ask? (.seek 5) = some (.error (.outOfBounds ⟨5, 0, 0⟩), ⟨data, 3⟩) := by
  intro data
  obtain ⟨c, position, hc, -, hstands, hrun, -, -, -, hnext⟩ :=
    @steps_whole_or_not data (by decide) 1 (by decide) [.smart, .skip 0xffffffffffffffff, .u16]
  obtain rfl : c = ((ofBytes data).ask (.seek 1)).2 := congrArg Prod.snd hc.symm
  have hposition :
      (((ofBytes data).ask (.seek 1)).2.through [.smart, .skip 0xffffffffffffffff, .u16]).position = 3 := by
    decide +kernel
  obtain rfl : 3 = position := hposition.symm.trans (congrArg Place.position hstands)
  exact ⟨hrun, (hnext .u24).2.2, (hnext .peek).2.2, (hnext (.seek 5)).2.2⟩

end Cursor

end Js5
