import Js5.Proofs.Cursor

/-!
# Readers that may fail

A triple says what holds of a value and the cursor behind it, and what holds of an error.
-/

namespace Js5

/-- A true report that `size` bytes were not enough: all of them lie in front of the place or were left, and
fewer were left than needed. -/
def OutOfBounds.IsShortage (size : Nat) (e : OutOfBounds) : Prop :=
  e.position + e.available = size ∧ e.available < e.needed

namespace Cursor

section
variable {ε δ α β : Type} {P : Cursor → Prop} {E : ε → Prop}

/-- From a cursor with `P` the reader gives a value and a cursor with `Q`, or fails with `E`. -/
def Triple (P : Cursor → Prop) (read : StateT Cursor (Except ε) α) (Q : α → Cursor → Prop)
    (E : ε → Prop) : Prop :=
  ∀ c, P c →
    match read c with
    | .ok (v, c') => Q v c'
    | .error e => E e

theorem Triple.of_ok {read : StateT Cursor (Except ε) α} {Q : α → Cursor → Prop} (h : Triple P read Q E)
    {c c' : Cursor} {v : α} (hc : P c) (hv : read c = .ok (v, c')) : Q v c' := by
  have := h c hc
  rwa [hv] at this

theorem Triple.of_error {read : StateT Cursor (Except ε) α} {Q : α → Cursor → Prop}
    (h : Triple P read Q E) {c : Cursor} {e : ε} (hc : P c) (he : read c = .error e) : E e := by
  have := h c hc
  rwa [he] at this

theorem Triple.run'_error {read : StateT Cursor (Except ε) α} {Q : α → Cursor → Prop}
    (h : Triple P read Q E) {c : Cursor} {e : ε} (hc : P c) (he : read.run' c = .error e) : E e := by
  change Prod.fst <$> read c = .error e at he
  cases hr : read c with
  | ok p => rw [hr] at he; cases he
  | error e' =>
    rw [hr] at he
    cases he
    exact h.of_error hc hr

theorem triple_pure {v : α} {Q : α → Cursor → Prop} (h : ∀ c, P c → Q v c) :
    Triple P (pure v : StateT Cursor (Except ε) α) Q E :=
  fun c hc => h c hc

theorem triple_throw {e : ε} {Q : α → Cursor → Prop} (h : E e) :
    Triple P (throw e : StateT Cursor (Except ε) α) Q E :=
  fun _ _ => h

theorem Triple.post {read : StateT Cursor (Except ε) α} {Q R : α → Cursor → Prop} (h : Triple P read Q E)
    (hq : ∀ v c, Q v c → R v c) : Triple P read R E := by
  intro c hc
  cases hr : read c with
  | error e => exact h.of_error hc hr
  | ok p => exact hq p.1 p.2 (h.of_ok hc hr)

theorem Triple.bind {read : StateT Cursor (Except ε) α} {f : α → StateT Cursor (Except ε) β}
    {Q : α → Cursor → Prop} {R : β → Cursor → Prop} (h : Triple P read Q E)
    (hf : ∀ v, Triple (Q v) (f v) R E) : Triple P (read >>= f) R E := by
  intro c hc
  cases hr : read c with
  | error e =>
    rw [bind_of_error hr]
    exact h.of_error hc hr
  | ok p =>
    rw [bind_of_ok hr]
    exact hf p.1 p.2 (h.of_ok hc hr)

theorem Triple.assume {p : Prop} {read : StateT Cursor (Except ε) α} {Q : α → Cursor → Prop}
    (h : p → Triple P read Q E) : Triple (fun c => p ∧ P c) read Q E :=
  fun c hc => h hc.1 c hc.2

theorem Triple.known {p : Prop} {read : StateT Cursor (Except ε) α} {Q : α → Cursor → Prop}
    (h : p → Triple (fun _ => True) read Q E) : Triple (fun _ => p) read Q E :=
  fun c hc => h hc c trivial

theorem Triple.check {b : Prop} [Decidable b] {e : ε} {rest : PUnit → StateT Cursor (Except ε) α}
    {Q : α → Cursor → Prop} (he : b → E e) (h : ¬ b → Triple P (rest ⟨⟩) Q E) :
    Triple P (if b then throw e >>= rest else rest ⟨⟩) Q E := by
  split
  · exact triple_throw (he ‹_›)
  · exact h ‹_›

theorem Triple.mapError {read : StateT Cursor (Except δ) α} {Q : α → Cursor → Prop} {D : δ → Prop}
    {g : δ → ε} (h : Triple P read Q D) (hg : ∀ e, D e → E (g e)) :
    Triple P (fun c => (read c).mapError g : StateT Cursor (Except ε) α) Q E := by
  intro c hc
  show match (read c).mapError g with
    | .ok (v, c') => Q v c'
    | .error e => E e
  cases hr : read c with
  | error e => exact hg e (h.of_error hc hr)
  | ok p => exact h.of_ok hc hr

theorem triple_mapM {γ τ : Type} {f : γ → StateT Cursor (Except ε) β} {Q : β → Prop}
    (key : β → τ) (row : γ → τ)
    (h : ∀ x, Triple (fun _ => True) (f x) (fun y _ => Q y ∧ key y = row x) E) :
    ∀ rows : List γ, Triple (fun _ => True) (rows.mapM f)
      (fun ys _ => (∀ y ∈ ys, Q y) ∧ ys.map key = rows.map row) E
  | [] => by
    rw [List.mapM_nil]
    exact triple_pure fun _ _ => by simp
  | x :: rows => by
    rw [List.mapM_cons]
    refine Triple.bind (h x) fun y => .known fun hy => ?_
    refine Triple.bind (triple_mapM key row h rows) fun ys => .known fun hys => ?_
    exact triple_pure fun _ _ => ⟨List.forall_mem_cons.mpr ⟨hy.1, hys.1⟩, by simp [hy.2, hys.2]⟩

/-! ## Invariants -/

/-- The reader keeps a property of cursors; it fails with `E`, if at all. -/
def Keeps (P : Cursor → Prop) (read : StateT Cursor (Except ε) α) (E : ε → Prop) : Prop :=
  Triple P read (fun _ c => P c) E

theorem keeps_pure (v : α) : Keeps P (pure v : StateT Cursor (Except ε) α) E := triple_pure fun _ hc => hc

theorem keeps_throw {e : ε} (h : E e) : Keeps P (throw e : StateT Cursor (Except ε) α) E := triple_throw h

theorem Keeps.bind {read : StateT Cursor (Except ε) α} {f : α → StateT Cursor (Except ε) β}
    (h : Keeps P read E) (hf : ∀ v, Keeps P (f v) E) : Keeps P (read >>= f) E :=
  Triple.bind h hf

theorem Keeps.map {read : StateT Cursor (Except ε) α} (h : Keeps P read E) (f : α → β) :
    Keeps P (do return f (← read)) E :=
  h.bind fun v => keeps_pure (f v)

end

/-! ## Shortages -/

variable {d : Array UInt8}

theorem keeps_take (n : Nat) : Keeps (fun c => c.data = d) (take n) (OutOfBounds.IsShortage d.size) := by
  intro c hc
  rcases Nat.lt_or_ge c.remaining n with h | h
  · rw [take_of_lt h]
    refine ⟨?_, h⟩
    have := c.position_le
    show c.position + (c.data.size - c.position) = d.size
    rw [← hc]
    omega
  · obtain ⟨c', ht, hd, -⟩ := take_of_le h
    rw [ht]
    exact hd.trans hc

theorem keeps_u8 : Keeps (fun c => c.data = d) u8 (OutOfBounds.IsShortage d.size) := (keeps_take 1).map _

theorem keeps_u16 : Keeps (fun c => c.data = d) u16 (OutOfBounds.IsShortage d.size) := (keeps_take 2).map _

theorem keeps_u32 : Keeps (fun c => c.data = d) u32 (OutOfBounds.IsShortage d.size) := (keeps_take 4).map _

theorem keeps_i32 : Keeps (fun c => c.data = d) i32 (OutOfBounds.IsShortage d.size) := keeps_u32.map _

theorem keeps_peek : Keeps (fun c => c.data = d) peek (OutOfBounds.IsShortage d.size) := by
  intro c hc
  unfold peek
  cases hx : c.data[c.position]? with
  | some x => exact hc
  | none =>
    have hle := Array.getElem?_eq_none_iff.mp hx
    refine ⟨?_, Nat.zero_lt_one⟩
    have := c.position_le
    show c.position + 0 = d.size
    rw [← hc]
    omega

theorem keeps_smart : Keeps (fun c => c.data = d) smart (OutOfBounds.IsShortage d.size) := by
  refine keeps_peek.bind fun x => ?_
  split
  · exact keeps_u32.map _
  · exact keeps_u16.map _

end Cursor

end Js5
