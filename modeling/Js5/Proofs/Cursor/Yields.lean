import Js5.Proofs.Cursor
import Js5.Proofs.Outcome

/-!
# What was read

Of most readers it can be said that the bytes they pass over are all that they look at: with other bytes
behind them they give the same, and without the last of them they fail.
-/

namespace Js5.Cursor

section
variable {ε δ α β : Type} {E : ε → Prop}

/-- Whatever the reader makes of the bytes that it passes over, value and bytes are in the relation `S`. -/
def Yields (read : StateT Cursor (Except ε) α) (S : α → Bytes → Prop) : Prop :=
  ∀ c c' v, read c = .ok (v, c') → ∃ b, c.rest = b ++ c'.rest ∧ S v b

variable {read : StateT Cursor (Except ε) α} {f : α → StateT Cursor (Except ε) β} {S R : α → Bytes → Prop}
  {T : β → Bytes → Prop}

theorem Yields.mono (h : Yields read S) (hs : ∀ v b, S v b → R v b) : Yields read R := by
  intro c c' v hr
  obtain ⟨b, hb, hv⟩ := h c c' v hr
  exact ⟨b, hb, hs v b hv⟩

theorem Yields.and (h : Yields read S) (h' : Yields read R) : Yields read fun v b => S v b ∧ R v b := by
  intro c c' v hr
  obtain ⟨b, hb, hs⟩ := h c c' v hr
  obtain ⟨b', hb', hs'⟩ := h' c c' v hr
  cases List.append_cancel_right (hb.symm.trans hb')
  exact ⟨b, hb, hs, hs'⟩

theorem yields_pure {v : α} (h : S v []) : Yields (pure v : StateT Cursor (Except ε) α) S := by
  intro c c' w hr
  cases hr
  exact ⟨[], rfl, h⟩

theorem yields_throw {e : ε} : Yields (throw e : StateT Cursor (Except ε) α) S := by
  intro c c' v hr
  cases hr

theorem ok_of_bind {c c' : Cursor} {w : β} (h : (read >>= f) c = .ok (w, c')) :
    ∃ v c₁, read c = .ok (v, c₁) ∧ f v c₁ = .ok (w, c') := by
  cases hr : read c with
  | error e =>
    rw [bind_of_error hr] at h
    cases h
  | ok p =>
    rw [bind_of_ok hr] at h
    exact ⟨p.1, p.2, rfl, h⟩

theorem Yields.bind (h : Yields read S) (hf : ∀ v b, S v b → Yields (f v) fun w b' => T w (b ++ b')) :
    Yields (read >>= f) T := by
  intro c c' w hr
  obtain ⟨v, c₁, hv, hw⟩ := ok_of_bind hr
  obtain ⟨b, hb, hs⟩ := h c c₁ v hv
  obtain ⟨b', hb', ht⟩ := hf v b hs c₁ c' w hw
  exact ⟨b ++ b', by rw [hb, hb', List.append_assoc], ht⟩

theorem Yields.map (h : Yields read S) (g : α → β) :
    Yields (do return g (← read)) fun w b => ∃ v, S v b ∧ w = g v := by
  refine h.bind fun v b hv => yields_pure ?_
  rw [List.append_nil]
  exact ⟨v, hv, rfl⟩

theorem Yields.mapM {γ τ : Type} {f : γ → StateT Cursor (Except ε) β} {G : τ → Prop}
    (row : τ → γ) (value : τ → β)
    (bytes : τ → Bytes) : ∀ {rows : List γ},
      (∀ x ∈ rows, Yields (f x) fun y b => ∃ t, G t ∧ row t = x ∧ value t = y ∧ bytes t = b) →
      Yields (rows.mapM f) fun ys b => ∃ ts : List τ, (∀ t ∈ ts, G t) ∧ ts.map row = rows ∧
        ts.map value = ys ∧
        ts.flatMap bytes = b
  | [], _ => by
    rw [List.mapM_nil]
    exact yields_pure ⟨[], fun _ h => absurd h List.not_mem_nil, rfl, rfl, rfl⟩
  | x :: rows, h => by
    rw [List.forall_mem_cons] at h
    rw [List.mapM_cons]
    refine h.1.bind fun y b hy => ((Yields.mapM row value bytes h.2).map (y :: ·)).mono ?_
    obtain ⟨t, ht, rfl, rfl, rfl⟩ := hy
    rintro _ _ ⟨_, ⟨ts, hts, rfl, rfl, rfl⟩, rfl⟩
    exact ⟨t :: ts, List.forall_mem_cons.mpr ⟨ht, hts⟩, rfl, rfl, rfl⟩

theorem Yields.mapError {read : Read α} (h : Yields read S) (g : OutOfBounds → ε) :
    Yields (fun c => (read c).mapError g : StateT Cursor (Except ε) α) S :=
  fun c c' v hr => h c c' v (mapError_eq_ok hr)

theorem yields_take (n : Nat) : Yields (take n) fun v b => b = v ∧ v.length = n := by
  intro c c' v hr
  rcases Nat.lt_or_ge c.remaining n with h | h
  · rw [take_of_lt h] at hr
    cases hr
  · obtain ⟨c₁, ht, -, hrest⟩ := take_of_le h
    rw [ht] at hr
    cases hr
    refine ⟨_, ?_, rfl, ?_⟩
    · rw [hrest, List.take_append_drop]
    · rw [List.length_take, length_rest, Nat.min_eq_left h]

theorem yields_u8 : Yields u8 fun n b => b = [n] := by
  refine ((yields_take 1).map fun b => UInt8.ofNat (Bytes.toNat b)).mono ?_
  rintro _ b ⟨_, ⟨rfl, hl⟩, rfl⟩
  obtain ⟨x, rfl⟩ := List.length_eq_one_iff.mp hl
  simp [Bytes.toNat]

theorem yields_u16 : Yields u16 fun n b => b = Bytes.ofNat 2 n.toNat := by
  refine ((yields_take 2).map fun b => UInt16.ofNat (Bytes.toNat b)).mono ?_
  rintro _ b ⟨_, ⟨rfl, hl⟩, rfl⟩
  have hlt := Bytes.toNat_lt b
  rw [hl] at hlt
  rw [UInt16.toNat_ofNat_of_lt' hlt, ← hl, Bytes.ofNat_toNat]

theorem yields_u32 : Yields u32 fun n b => b = Bytes.ofNat 4 n.toNat := by
  refine ((yields_take 4).map fun b => UInt32.ofNat (Bytes.toNat b)).mono ?_
  rintro _ b ⟨_, ⟨rfl, hl⟩, rfl⟩
  have hlt := Bytes.toNat_lt b
  rw [hl] at hlt
  rw [UInt32.toNat_ofNat_of_lt' hlt, ← hl, Bytes.ofNat_toNat]

theorem yields_i32 : Yields i32 fun n b => b = Bytes.ofNat 4 n.toUInt32.toNat := by
  refine (yields_u32.map UInt32.toInt32).mono ?_
  rintro _ _ ⟨n, rfl, rfl⟩
  rw [UInt32.toUInt32_toInt32]

/-! ## How much was read -/

def Takes (n : Nat) (read : StateT Cursor (Except ε) α) : Prop := Yields read fun _ b => n ≤ b.length

theorem Takes.le {n : Nat} (h : Takes n read) {c c' : Cursor} {v : α} (hr : read c = .ok (v, c')) :
    n + c'.remaining ≤ c.remaining := by
  obtain ⟨b, hb, hn⟩ := h c c' v hr
  rw [← length_rest, ← length_rest, hb, List.length_append]
  exact Nat.add_le_add_right hn _

theorem takes_take (n : Nat) : Takes n (take n) :=
  (yields_take n).mono fun _ _ h => Nat.le_of_eq (h.2.symm.trans (congrArg _ h.1.symm))

theorem Takes.bind {m n : Nat} (h : Takes m read) (hf : ∀ v, Takes n (f v)) : Takes (m + n) (read >>= f) :=
  Yields.bind h fun v b hb => (hf v).mono fun _ b' hb' => by
    rw [List.length_append]
    exact Nat.add_le_add hb hb'

theorem Takes.map {n : Nat} (h : Takes n read) (g : α → β) : Takes n (do return g (← read)) :=
  h.bind (n := 0) fun _ => yields_pure (Nat.zero_le _)

theorem Takes.mapError {n : Nat} {read : Read α} (h : Takes n read) (g : OutOfBounds → ε) :
    Takes n (fun c => (read c).mapError g : StateT Cursor (Except ε) α) :=
  Yields.mapError h g

theorem Takes.mapM {γ : Type} {f : γ → StateT Cursor (Except ε) β} {n : γ → Nat}
    (h : ∀ x, Takes (n x) (f x)) :
    ∀ rows : List γ, Takes (rows.map n).sum (rows.mapM f)
  | [] => yields_pure (Nat.zero_le _)
  | x :: rows => by
    rw [List.mapM_cons, List.map_cons, List.sum_cons]
    exact (h x).bind fun y => (Takes.mapM h rows).map (y :: ·)

/-! ## Readers that are delimited -/

/-- The bytes `b` are all that the reader looks at when it gives `v`: whatever is behind them makes no
difference, and where the last of them are missing it fails with `E`. -/
structure Delimits (E : ε → Prop) (read : StateT Cursor (Except ε) α) (v : α) (b : Bytes) : Prop where
  consumes : Consumes read b v
  needs (c : Cursor) (missing : Bytes) : c.rest ++ missing = b → missing ≠ [] → ∃ e, read c = .error e ∧ E e

/-- The reader looks at no more bytes than it passes over, and needs all of these. -/
def Delimited (E : ε → Prop) (read : StateT Cursor (Except ε) α) : Prop := Yields read (Delimits E read)

theorem delimited_pure (v : α) : Delimited E (pure v : StateT Cursor (Except ε) α) := by
  refine yields_pure ⟨consumes_pure v, fun c missing hb hm => ?_⟩
  exact absurd (List.append_eq_nil_iff.mp hb).2 hm

theorem Delimits.bind {v : α} {w : β} {b b' : Bytes} (h : Delimits E read v b) (hf : Delimits E (f v) w b') :
    Delimits E (read >>= f) w (b ++ b') where
  consumes := h.consumes.bind hf.consumes
  needs c missing hb hm := by
    obtain ⟨lack, rfl, rfl⟩ | ⟨rest, hrest, rfl⟩ := List.append_eq_append_iff.mp hb
    · cases lack with
      | cons x lack =>
        obtain ⟨e, he, hE⟩ := h.needs c _ rfl (List.cons_ne_nil x lack)
        exact ⟨e, bind_of_error he f, hE⟩
      | nil =>
        obtain ⟨c₁, hc, -, hrest⟩ := h.consumes c [] (by rw [List.append_nil, List.append_nil])
        obtain ⟨e, he, hE⟩ := hf.needs c₁ _ (congrArg (· ++ b') hrest) hm
        exact ⟨e, (bind_of_ok hc f).trans he, hE⟩
    · obtain ⟨c₁, hc, -, hrest⟩ := h.consumes c rest hrest
      obtain ⟨e, he, hE⟩ := hf.needs c₁ missing (congrArg (· ++ missing) hrest) hm
      exact ⟨e, (bind_of_ok hc f).trans he, hE⟩

theorem Delimited.bind (h : Delimited E read) (hf : ∀ v, Delimited E (f v)) : Delimited E (read >>= f) :=
  Yields.bind h fun v _ hb => (hf v).mono fun _ _ hb' => hb.bind hb'

theorem Delimited.map (h : Delimited E read) (g : α → β) : Delimited E (do return g (← read)) :=
  h.bind fun v => delimited_pure (g v)

theorem Delimited.mapError {read : Read α} {D : OutOfBounds → Prop} {g : OutOfBounds → ε}
    (h : Delimited D read) (hg : ∀ e, D e → E (g e)) :
    Delimited E (fun c => (read c).mapError g : StateT Cursor (Except ε) α) := by
  refine (Yields.mapError h g).mono fun v b hb => ⟨hb.consumes.mapError g, fun c missing hc hm => ?_⟩
  obtain ⟨e, he, hD⟩ := hb.needs c missing hc hm
  exact ⟨g e, congrArg (Except.mapError g) he, hg e hD⟩

theorem delimits_take (b : Bytes) : Delimits (fun _ => True) (take b.length) b b where
  consumes := consumes_take b
  needs c missing hb hm := by
    have hlt : c.remaining < b.length := by
      have hpos := List.length_pos_iff.mpr hm
      rw [← hb, List.length_append, length_rest]
      omega
    exact ⟨_, take_of_lt hlt, trivial⟩

theorem delimited_take (n : Nat) : Delimited (fun _ => True) (take n) := by
  refine (yields_take n).mono ?_
  rintro v _ ⟨rfl, rfl⟩
  exact delimits_take _

/-- A reader that is delimited ends at some place of the bytes: what is behind that place makes no
difference, and before it the bytes are too few. -/
theorem Delimited.run' (h : Delimited E read) {b : Bytes} {v : α} (hr : read.run' (ofBytes b) = .ok v) :
    ∃ n ≤ b.length, (∀ extra, read.run' (ofBytes (b.take n ++ extra)) = .ok v) ∧
      ∀ m < n, ∃ e, read.run' (ofBytes (b.take m)) = .error e ∧ E e := by
  obtain ⟨⟨w, c'⟩, hc, hw⟩ := map_eq_ok (f := Prod.fst) hr
  subst hw
  obtain ⟨part, hpart, hd⟩ := h _ _ _ hc
  rw [rest_ofBytes] at hpart
  subst hpart
  refine ⟨part.length, by simp, fun extra => ?_, fun m hm => ?_⟩
  · rw [List.take_left]
    exact hd.consumes.run' extra
  · obtain ⟨e, he, hE⟩ := hd.needs (ofBytes (part.take m)) (part.drop m)
      (by rw [rest_ofBytes, List.take_append_drop]) (by simpa using hm)
    rw [List.take_append_of_le_length (Nat.le_of_lt hm)]
    exact ⟨e, congrArg (Except.map Prod.fst) he, hE⟩

end

end Js5.Cursor
