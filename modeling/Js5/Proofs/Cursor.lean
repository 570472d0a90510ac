import Js5.Bytes.Lemmas
import Js5.Cursor

/-!
# Reading what is there

Readers of whole formats are put together from readers that find certain bytes in front of them and stop
behind these, whatever comes after.
-/

namespace Js5.Cursor

theorem rest_ofBytes (b : Bytes) : (ofBytes b).rest = b := by
  simp [rest, ofBytes]

section
variable {ε α β : Type}

theorem bind_of_ok {read : StateT Cursor (Except ε) α} {c c' : Cursor} {v : α} (h : read c = .ok (v, c'))
    (f : α → StateT Cursor (Except ε) β) : (read >>= f) c = f v c' := by
  show (read c >>= fun p => f p.1 p.2) = _
  rw [h]
  rfl

theorem bind_of_error {read : StateT Cursor (Except ε) α} {c : Cursor} {e : ε} (h : read c = .error e)
    (f : α → StateT Cursor (Except ε) β) : (read >>= f) c = .error e := by
  show (read c >>= fun p => f p.1 p.2) = _
  rw [h]
  rfl

/-- The reader passes over the bytes `b` and gives `v`, whatever comes behind them. -/
def Consumes (read : StateT Cursor (Except ε) α) (b : Bytes) (v : α) : Prop :=
  ∀ (c : Cursor) (tail : Bytes), c.rest = b ++ tail →
    ∃ c', read c = .ok (v, c') ∧ c'.data = c.data ∧ c'.rest = tail

theorem Consumes.run' {read : StateT Cursor (Except ε) α} {b : Bytes} {v : α} (h : Consumes read b v)
    (tail : Bytes) : read.run' (ofBytes (b ++ tail)) = .ok v := by
  obtain ⟨c', hc, -, -⟩ := h (ofBytes (b ++ tail)) tail (rest_ofBytes _)
  show Prod.fst <$> read (ofBytes (b ++ tail)) = .ok v
  rw [hc]; rfl

theorem Consumes.congr {read : StateT Cursor (Except ε) α} {b : Bytes} {v w : α} (h : Consumes read b v)
    (hv : v = w) :
    Consumes read b w :=
  hv ▸ h

theorem consumes_pure (v : α) : Consumes (pure v : StateT Cursor (Except ε) α) [] v :=
  fun c _ hc => ⟨c, rfl, rfl, hc⟩

theorem Consumes.bind {read : StateT Cursor (Except ε) α} {f : α → StateT Cursor (Except ε) β} {a b : Bytes}
    {v : α} {w : β} (h : Consumes read a v) (hf : Consumes (f v) b w) : Consumes (read >>= f) (a ++ b) w := by
  intro c tail hc
  rw [List.append_assoc] at hc
  obtain ⟨c₁, h₁, hd₁, hr₁⟩ := h c _ hc
  obtain ⟨c₂, h₂, hd₂, hr₂⟩ := hf c₁ tail hr₁
  exact ⟨c₂, (bind_of_ok h₁ f).trans h₂, hd₂.trans hd₁, hr₂⟩

theorem Consumes.map {read : StateT Cursor (Except ε) α} {b : Bytes} {v : α} (h : Consumes read b v)
    (f : α → β) : Consumes (do return f (← read)) b (f v) := by
  have := h.bind (f := fun x => pure (f x)) (consumes_pure (f v))
  rwa [List.append_nil] at this

theorem Consumes.mapM {f : α → StateT Cursor (Except ε) β} {g : α → β} {write : α → Bytes} :
    ∀ (rows : List α), (∀ x ∈ rows, Consumes (f x) (write x) (g x)) →
      Consumes (rows.mapM f) (rows.flatMap write) (rows.map g)
  | [], _ => by
    rw [List.mapM_nil]
    exact consumes_pure []
  | x :: rows, h => by
    rw [List.mapM_cons, List.flatMap_cons, List.map_cons]
    refine (h x (List.mem_cons_self ..)).bind ?_
    exact (Consumes.mapM rows fun y hy => h y (List.mem_cons_of_mem _ hy)).map _

theorem Consumes.mapError {read : Read α} {b : Bytes} {v : α} (h : Consumes read b v) (f : OutOfBounds → ε) :
    Consumes (fun c => (read c).mapError f : StateT Cursor (Except ε) α) b v := by
  intro c tail hc
  obtain ⟨c', hr, hd, ht⟩ := h c tail hc
  exact ⟨c', congrArg (Except.mapError f) hr, hd, ht⟩

end

/-! ## Bytes and numbers -/

theorem take_of_le {c : Cursor} {n : Nat} (h : n ≤ c.remaining) :
    ∃ c', take n c = .ok (c.rest.take n, c') ∧ c'.data = c.data ∧ c'.rest = c.rest.drop n := by
  have hb : (c.data.extract c.position (c.position + n)).toList = c.rest.take n := by
    rw [Array.toList_extract, List.extract_eq_take_drop, Nat.add_sub_cancel_left]
    rfl
  unfold take
  rw [dif_pos h, hb]
  exact ⟨_, rfl, rfl, List.drop_drop.symm⟩

theorem take_of_lt {c : Cursor} {n : Nat} (h : c.remaining < n) :
    take n c = .error ⟨c.position, n, c.remaining⟩ :=
  dif_neg (Nat.not_le.mpr h)

theorem consumes_take (b : Bytes) : Consumes (take b.length) b b := by
  intro c tail hc
  have hle : b.length ≤ c.remaining := by
    rw [← length_rest, hc, List.length_append]
    exact Nat.le_add_right ..
  obtain ⟨c', ht, hd, hr⟩ := take_of_le hle
  rw [hc, List.take_left] at ht
  rw [hc, List.drop_left] at hr
  exact ⟨c', ht, hd, hr⟩

theorem takeRest_eq (c : Cursor) : ∃ c', takeRest c = .ok (c.rest, c') := by
  refine ⟨⟨c.data, c.data.size, Nat.le_refl _⟩, ?_⟩
  have hr : (c.data.extract c.position c.data.size).toList = c.rest := by
    rw [Array.toList_extract, List.extract_eq_take_drop, List.take_of_length_le (by simp)]
    rfl
  unfold takeRest
  rw [hr]

theorem consumes_u8 {b : Bytes} (hb : b.length = 1) : Consumes u8 b (UInt8.ofNat (Bytes.toNat b)) := by
  have h := (consumes_take b).map fun b => UInt8.ofNat (Bytes.toNat b)
  rwa [hb] at h

theorem consumes_u16 {b : Bytes} (hb : b.length = 2) : Consumes u16 b (UInt16.ofNat (Bytes.toNat b)) := by
  have h := (consumes_take b).map fun b => UInt16.ofNat (Bytes.toNat b)
  rwa [hb] at h

theorem consumes_u24 {b : Bytes} (hb : b.length = 3) : Consumes u24 b (UInt32.ofNat (Bytes.toNat b)) := by
  have h := (consumes_take b).map fun b => UInt32.ofNat (Bytes.toNat b)
  rwa [hb] at h

theorem consumes_u32 {b : Bytes} (hb : b.length = 4) : Consumes u32 b (UInt32.ofNat (Bytes.toNat b)) := by
  have h := (consumes_take b).map fun b => UInt32.ofNat (Bytes.toNat b)
  rwa [hb] at h

theorem consumes_i32 {b : Bytes} (hb : b.length = 4) :
    Consumes i32 b (Int32.ofNat (Bytes.toNat b)) :=
  (consumes_u32 hb).map _

/-! ## Written numbers -/

theorem consumes_u24_ofNat {n : UInt32} (h : n.toNat < 2 ^ 24) : Consumes u24 (Bytes.ofNat 3 n.toNat) n := by
  have := consumes_u24 (Bytes.length_ofNat 3 n.toNat)
  rwa [Bytes.toNat_ofNat_of_lt h, UInt32.ofNat_toNat] at this

theorem consumes_u32_ofNat (n : UInt32) : Consumes u32 (Bytes.ofNat 4 n.toNat) n := by
  have := consumes_u32 (Bytes.length_ofNat 4 n.toNat)
  rwa [Bytes.toNat_ofNat_of_lt (by simpa using n.toNat_lt), UInt32.ofNat_toNat] at this

theorem consumes_i32_ofNat (n : Int32) : Consumes i32 (Bytes.ofNat 4 n.toUInt32.toNat) n :=
  (consumes_u32_ofNat n.toUInt32).map UInt32.toInt32

end Js5.Cursor
