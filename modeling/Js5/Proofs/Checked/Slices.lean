import Js5.Bytes.Lemmas
import Js5.Proofs.Cursor.Triple

/-!
# Parts of bytes

A checked reader asks for parts by where they start and stop, and comes to nothing if one reaches outside
the bytes or a sum of sizes does not fit the machine.
-/

namespace Js5

/-- The bytes from `start` up to `stop`, if they lie within `b`. -/
def Bytes.slice? (b : Bytes) (start stop : Nat) : Option Bytes :=
  if start ≤ stop ∧ stop ≤ b.length then some ((b.drop start).take (stop - start)) else none

def size? (n : Nat) : Option Nat := if n < UInt64.size then some n else none

/-- What comes of a reader that may also go out of bounds. -/
abbrev Checked (ε : Type) := ExceptT ε Option

instance {ε : Type} : MonadLift (Except ε) (Checked ε) where
  monadLift r := ExceptT.mk (some r)

theorem Bytes.slice?_of_le {b : Bytes} {start stop : Nat} (h : start ≤ stop) (h' : stop ≤ b.length) :
    slice? b start stop = some ((b.drop start).take (stop - start)) :=
  if_pos ⟨h, h'⟩

theorem Bytes.slice?_zero {b : Bytes} {stop : Nat} (h : stop ≤ b.length) :
    slice? b 0 stop = some (b.take stop) :=
  slice?_of_le (Nat.zero_le stop) h

theorem Bytes.slice?_length {b : Bytes} {start : Nat} (h : start ≤ b.length) :
    slice? b start b.length = some (b.drop start) := by
  rw [slice?_of_le h (Nat.le_refl _), List.take_of_length_le (Nat.le_of_eq List.length_drop)]

theorem Bytes.slice?_extract {d : Array UInt8} {start stop : Nat} (h : start ≤ stop) (h' : stop ≤ d.size) :
    slice? d.toList start stop = some (d.extract start stop).toList := by
  rw [slice?_of_le h (by rwa [Array.length_toList]), Array.toList_extract, List.extract_eq_take_drop]

theorem Bytes.slice?_append (before part behind : Bytes) :
    slice? (before ++ part ++ behind) before.length (before.length + part.length) = some part := by
  rw [slice?_of_le (Nat.le_add_right ..) (by simp), List.append_assoc, List.drop_left,
    Nat.add_sub_cancel_left, List.take_left]

theorem size?_of_lt {n : Nat} (h : n < UInt64.size) : size? n = some n := if_pos h

section
variable {ε α β : Type}

theorem Checked.bind_some {x : Option α} {v : α} (h : x = some v) (f : α → Checked ε β) :
    ((liftM x : Checked ε α) >>= f) = f v := by
  rw [h]
  rfl

theorem Checked.bind_of_error {x : Checked ε α} {e : ε} (h : x.run = some (.error e)) (f : α → Checked ε β) :
    (x >>= f).run = some (.error e) := by
  show (x.run >>= ExceptT.bindCont f) = _
  rw [h]
  rfl

theorem Checked.bind_of_ok {x : Checked ε α} {v : α} (h : x.run = some (.ok v)) (f : α → Checked ε β) :
    (x >>= f).run = (f v).run := by
  show (x.run >>= ExceptT.bindCont f) = _
  rw [h]
  rfl

theorem Checked.bind_of {x : Checked ε α} {r : Except ε α} (hx : x.run = some r) {f : α → Checked ε β}
    {g : α → Except ε β} (h : ∀ v, r = .ok v → (f v).run = some (g v)) : (x >>= f).run = some (r >>= g) := by
  cases r with
  | error e => exact bind_of_error hx f
  | ok v => exact (bind_of_ok hx f).trans (h v rfl)

theorem Checked.check {c : Prop} [Decidable c] {e : ε} {f : PUnit → Checked ε α} {r : Except ε α}
    (h : ¬ c → (f ⟨⟩).run = some r) :
    (if c then (throw e : Checked ε PUnit) >>= f else f ⟨⟩).run = some (if c then .error e else r) := by
  split
  · rfl
  · exact h ‹_›

end

namespace Cursor

/-- How the reading of a number fails: the bytes end too early, or the part that was taken for it is too
short. -/
inductive NumberError where
  | outOfBounds (e : OutOfBounds)
  | short

def number? (width : Nat) (c : Cursor) : Checked NumberError (Nat × Cursor) :=
  if h : width ≤ c.remaining then do
    let part ← Bytes.slice? c.data.toList c.position (c.position + width)
    if part.length < width then
      throw .short
    return (Bytes.toNat (part.take width), ⟨c.data, c.position + width, by
      have := c.position_le
      simp only [remaining] at h
      omega⟩)
  else throw (.outOfBounds ⟨c.position, width, c.remaining⟩)

theorem number?_eq (width : Nat) (c : Cursor) :
    (number? width c).run =
      some (((do return Bytes.toNat (← take width) : Read Nat) c).mapError .outOfBounds) := by
  rcases Nat.lt_or_ge c.remaining width with h | h
  · unfold number?
    rw [dif_neg (Nat.not_le.mpr h), bind_of_error (take_of_lt h)]
    rfl
  · have hstop : c.position + width ≤ c.data.size := by
      have := c.position_le
      unfold remaining at h
      omega
    have hpart := Bytes.slice?_extract (Nat.le_add_right c.position width) hstop
    have hlen : (c.data.extract c.position (c.position + width)).toList.length = width := by
      rw [Array.length_toList, Array.size_extract, Nat.min_eq_left hstop, Nat.add_sub_cancel_left]
    unfold number?
    rw [dif_pos h, Checked.bind_some hpart, if_neg (Nat.not_lt.mpr (Nat.le_of_eq hlen.symm)),
      List.take_of_length_le (Nat.le_of_eq hlen)]
    show _ = some ((take width c >>= fun p => pure (Bytes.toNat p.1, p.2)).mapError _)
    unfold take
    rw [dif_pos h]
    rfl

end Cursor

end Js5
