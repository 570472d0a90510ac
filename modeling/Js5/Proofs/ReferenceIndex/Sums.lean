import Js5.Proofs.ReferenceIndex.Names
import Js5.Proofs.ReferenceIndex.Shortage

/-!
# Ids are exact sums

The reader stops at the first step that leads out of 32 bits, so that no id has wrapped around; where ids
have two bytes this never happens.
-/

namespace Js5.ReferenceIndex

open Cursor (Triple triple_pure)

/-! ## Lists of ids -/

def total (steps : List UInt32) : Nat := (steps.map UInt32.toNat).sum

@[simp] theorem total_nil : total [] = 0 := rfl

@[simp] theorem total_append (steps steps' : List UInt32) :
    total (steps ++ steps') = total steps + total steps' := by
  simp [total]

@[simp] theorem total_singleton (step : UInt32) : total [step] = step.toNat := by
  simp [total]

/-- A list of ids under way: the steps that were read, and the ids that were recorded. -/
structure Listing where
  steps : List UInt32
  ids : List UInt32

namespace Listing

def Exact (l : Listing) : Prop := ∀ i id, l.ids[i]? = some id → id.toNat = total (l.steps.take (i + 1))

def Fits (l : Listing) : Prop := l.ids.length = l.steps.length ∧ total l.steps < 2 ^ 32

/-- The last step leads from `p` to a sum that 32 bits cannot hold, and no id was recorded for it. -/
def OverflowsAt (l : Listing) (p : UInt32) : Prop := ∃ front step, l.steps = front ++ [step] ∧
  l.ids.length = front.length ∧ total front = p.toNat ∧ 2 ^ 32 ≤ total front + step.toNat

theorem OverflowsAt.not_fits {l : Listing} {p : UInt32} (h : l.OverflowsAt p) : ¬ l.Fits := by
  obtain ⟨front, step, hs, -, -, hle⟩ := h
  intro hf
  have hlt := hf.2
  simp only [hs, total_append, total_singleton] at hlt
  omega

theorem OverflowsAt.unique {l : Listing} {p q : UInt32} (hp : l.OverflowsAt p) (hq : l.OverflowsAt q) :
    p = q := by
  obtain ⟨front, step, hs, -, ht, -⟩ := hp
  obtain ⟨front', step', hs', -, ht', -⟩ := hq
  have hfront := List.append_inj_left' (hs.symm.trans hs') rfl
  rw [← UInt32.toNat_inj, ← ht, ← ht', hfront]

/-- Reads `count` more ids behind those that the list has. What it has come to by then is known also where
the reading fails. -/
def read (wide : Bool) (l : Listing) (last : UInt32) : (count : Nat) → Cursor → Listing × Except Error Cursor
  | 0, c => (l, .ok c)
  | count + 1, c =>
    match readId wide c with
    | .error e => (l, .error e)
    | .ok (step, c) =>
      if last.toNat + step.toNat < UInt32.size then
        read wide ⟨l.steps ++ [step], l.ids ++ [last + step]⟩ (last + step) count c
      else (⟨l.steps ++ [step], l.ids⟩, .error (.idOverflow last))

def ofCursor (wide : Bool) (count : UInt32) (c : Cursor) : Listing × Except Error Cursor :=
  read wide ⟨[], []⟩ 0 count.toNat c

end Listing

theorem readIds_eq (wide : Bool) : ∀ (count : Nat) (l : Listing) (last : UInt32) (c : Cursor),
    readIds wide last l.ids.toArray count c =
      (l.read wide last count c).2.map fun c' => ((l.read wide last count c).1.ids.toArray, c')
  | 0, l, last, c => rfl
  | count + 1, l, last, c => by
    unfold readIds Listing.read
    cases hr : readId wide c with
    | error e =>
      rw [Cursor.bind_of_error hr]
      rfl
    | ok p =>
      rw [Cursor.bind_of_ok hr]
      by_cases hlt : last.toNat + p.1.toNat < UInt32.size
      · simp only [if_pos hlt]
        rw [← readIds_eq wide count, List.push_toArray]
      · simp only [if_neg hlt]
        rfl

theorem readIdList_eq (wide : Bool) (count : UInt32) (c : Cursor) : readIdList wide count c =
    (Listing.ofCursor wide count c).2.map fun c' =>
      ((Listing.ofCursor wide count c).1.ids.eraseReps, c') := by
  have h := readIds_eq wide count.toNat ⟨[], []⟩ 0 c
  unfold readIdList Listing.ofCursor
  cases hr : (Listing.read wide ⟨[], []⟩ 0 count.toNat c).2 with
  | error e =>
    rw [hr] at h
    exact Cursor.bind_of_error h _
  | ok c' =>
    rw [hr] at h
    exact Cursor.bind_of_ok h _

/-! ## What one step keeps -/

/-- A list that has gone well so far: there is an id for every step, and `last` is the last of them. -/
structure Listing.Runs (l : Listing) (last : UInt32) : Prop where
  length : l.ids.length = l.steps.length
  last : last.toNat = total l.steps
  exact : l.Exact

theorem Listing.runs_nil : Listing.Runs ⟨[], []⟩ 0 where
  length := rfl
  last := rfl
  exact i id h := by simp at h

theorem Listing.Runs.fits {l : Listing} {last : UInt32} (h : l.Runs last) : l.Fits := by
  refine ⟨h.length, ?_⟩
  rw [← h.last]
  exact last.toNat_lt

theorem Listing.Runs.step {l : Listing} {last : UInt32} (h : l.Runs last) {step : UInt32}
    (hlt : last.toNat + step.toNat < UInt32.size) :
    Listing.Runs ⟨l.steps ++ [step], l.ids ++ [last + step]⟩ (last + step) := by
  have hnext : (last + step).toNat = total (l.steps ++ [step]) := by
    rw [UInt32.toNat_add, Nat.mod_eq_of_lt hlt, h.last]
    simp
  refine ⟨by simp [h.length], hnext, fun i id hid => ?_⟩
  rcases Nat.lt_or_ge i l.ids.length with hi | hi
  · rw [List.getElem?_append_left hi] at hid
    rw [List.take_append_of_le_length (by rw [← h.length]; exact hi)]
    exact h.exact i id hid
  · rw [List.getElem?_append_right hi, List.getElem?_singleton] at hid
    split at hid
    · cases hid
      rw [List.take_of_length_le (by simp [← h.length]; omega)]
      exact hnext
    · cases hid

/-! ## Readers that sum nothing -/

def Error.IsOther (e : Error) : Prop := ∀ p, e ≠ .idOverflow p

section
variable {α τ : Type}

theorem other_lift (read : Cursor.Read α) :
    Triple (fun _ => True) (liftM read : Read α) (fun _ _ => True) Error.IsOther := by
  have h : Triple (fun _ => True) read (fun _ _ => True) fun _ => True := by
    intro c _
    cases read c with
    | ok p => trivial
    | error e => trivial
  exact h.mapError fun e _ p he => by cases he

theorem other_field {V : Type} (read : Cursor.Read V) {set : V → α} {key : α → τ} {k : τ}
    (h : ∀ v, key (set v) = k) :
    Triple (fun _ => True) (liftM read >>= fun v => pure (set v) : Read α)
      (fun y _ => key y = k) Error.IsOther :=
  (other_lift read).bind fun v => triple_pure fun _ _ => h v

theorem other_mapM {f : α → Read α} (key : α → τ)
    (h : ∀ x, Triple (fun _ => True) (f x) (fun y _ => key y = key x) Error.IsOther) (rows : List α) :
    Triple (fun _ => True) (rows.mapM f) (fun ys _ => ys.map key = rows.map key) Error.IsOther :=
  (Cursor.triple_mapM (Q := fun _ => True) key key (fun x => (h x).post fun _ _ hy => ⟨trivial, hy⟩)
    rows).post fun _ _ hys => hys.2

theorem other_column {present : Bool} {read : α → Read α} (key : α → τ)
    (h : ∀ x, Triple (fun _ => True) (read x) (fun y _ => key y = key x) Error.IsOther) (rows : List α) :
    Triple (fun _ => True) (column present rows read)
      (fun ys _ => ys.map key = rows.map key) Error.IsOther := by
  unfold column
  split
  · exact other_mapM key h rows
  · exact triple_pure fun _ _ => rfl

end

def IsNarrow (n : UInt32) : Prop := n.toNat ≤ 65535

theorem other_readId (wide : Bool) :
    Triple (fun _ => True) (readId wide) (fun n _ => wide = false → IsNarrow n) Error.IsOther := by
  unfold readId
  cases wide with
  | true => exact (other_lift _).post fun _ _ _ h => by cases h
  | false =>
    refine Triple.bind (other_lift _) fun n => triple_pure fun _ _ _ => ?_
    have := n.toNat_lt
    simp only [IsNarrow, UInt16.toNat_toUInt32]
    omega

theorem other_protocol (b : Bytes) : Triple (fun c => c.rest = b) (liftM Cursor.u8 : Read UInt8)
    (fun protocol _ => b.head? = some protocol) Error.IsOther := by
  intro c hc
  cases hr : (liftM Cursor.u8 : Read UInt8) c with
  | error e => exact (other_lift Cursor.u8).of_error trivial hr
  | ok p =>
    obtain ⟨front, hb, hfront⟩ := Cursor.yields_u8.mapError Error.outOfBounds c p.2 p.1 hr
    show b.head? = some p.1
    rw [← hc, hb, hfront]
    rfl

theorem other_readHeading (b : Bytes) : Triple (fun c => c.rest = b) readHeading
    (fun h _ => b.head? = some h.protocol ∧ (isWide h.protocol = false → IsNarrow h.count))
    Error.IsOther := by
  unfold readHeading
  refine Triple.bind (other_protocol b) fun protocol => .check (fun _ p he => by cases he)
    fun _ => .known fun hp => ?_
  have hbehind (version : Int32) : Triple (fun _ => True) (do
      let flags ← Cursor.u8
      return ⟨protocol, version, flags, ← readId (isWide protocol)⟩ : Read Heading)
      (fun h _ => b.head? = some h.protocol ∧ (isWide h.protocol = false → IsNarrow h.count)) Error.IsOther :=
    Triple.bind (other_lift _) fun flags => (other_readId _).bind fun count => triple_pure fun _ h => ⟨hp, h⟩
  split
  · exact Triple.bind (other_lift _) fun version => hbehind version
  · exact hbehind 0

theorem other_readColumns (index : ReferenceIndex) : Triple (fun _ => True) (readColumns index)
    (fun groups _ => groups.map Group.id = index.groups.map Group.id) Error.IsOther := by
  unfold readColumns
  refine Triple.bind (other_column Group.id (fun g => other_field _ fun _ => by rfl) _) fun g₁ =>
    .known fun h₁ => ?_
  refine Triple.bind (other_column Group.id (fun g => other_field _ fun _ => by rfl) _) fun g₂ =>
    .known fun h₂ => ?_
  refine Triple.bind (other_column Group.id (fun g => other_field _ fun _ => by rfl) _) fun g₃ =>
    .known fun h₃ => ?_
  refine Triple.bind (other_column Group.id (fun g => other_field _ fun _ => by rfl) _) fun g₄ =>
    .known fun h₄ => ?_
  refine Triple.bind (other_column Group.id (fun g => (other_lift _).bind fun n =>
    other_field _ fun _ => by rfl) _) fun g₅ => .known fun h₅ => ?_
  refine (other_column Group.id (fun g => other_field _ fun _ => by rfl) _).post fun g₆ _ h₆ => ?_
  rw [h₆, h₅, h₄, h₃, h₂, h₁]

theorem other_fileNames (hasNames : Bool) (groups : List Group) : Triple (fun _ => True)
    (column hasNames groups fun g =>
      return { g with files := ← g.files.mapM fun file => return { file with nameHash := ← Cursor.i32 } })
    (fun gs _ => gs.map (fun g => (g.id, g.fileIds)) = groups.map fun g => (g.id, g.fileIds))
    Error.IsOther := by
  refine other_column _ (fun g => ?_) groups
  refine Triple.bind (other_mapM File.id (fun file => other_field _ fun _ => by rfl) g.files) fun files =>
    .known fun h => triple_pure fun _ _ => ?_
  exact congrArg (Prod.mk g.id) h

/-! ## What a run keeps -/

/-- A list, and what came of reading it: all of it was read, or something else was wrong, or the sum became
too large. -/
inductive Listing.Outcome : Listing → Except Error Cursor → Prop
  | complete {l : Listing} {last : UInt32} {c : Cursor} (h : l.Runs last) : Outcome l (.ok c)
  | cut {l : Listing} {last : UInt32} {e : Error} (h : l.Runs last) (he : e.IsOther) : Outcome l (.error e)
  | overflow {l : Listing} {last step : UInt32} (h : l.Runs last)
    (hle : UInt32.size ≤ last.toNat + step.toNat) :
    Outcome ⟨l.steps ++ [step], l.ids⟩ (.error (.idOverflow last))

theorem Listing.outcome_read (wide : Bool) :
    ∀ (count : Nat) {l : Listing} {last : UInt32} (c : Cursor), l.Runs last →
    Outcome (l.read wide last count c).1 (l.read wide last count c).2
  | 0, l, last, c, h => .complete h
  | count + 1, l, last, c, h => by
    -- a list that has run so far runs on, is cut off, or overflows with this very step
    unfold read
    cases hr : readId wide c with
    | error e => exact .cut h ((other_readId wide).of_error trivial hr)
    | ok p =>
      by_cases hlt : last.toNat + p.1.toNat < UInt32.size
      · simp only [if_pos hlt]
        exact outcome_read wide count p.2 (h.step hlt)
      · simp only [if_neg hlt]
        exact .overflow h (Nat.le_of_not_lt hlt)

theorem Listing.outcome_ofCursor (wide : Bool) (count : UInt32) (c : Cursor) :
    Outcome (ofCursor wide count c).1 (ofCursor wide count c).2 :=
  outcome_read wide count.toNat c runs_nil

theorem Listing.Outcome.exact {l : Listing} {r : Except Error Cursor} (h : l.Outcome r) : l.Exact := by
  cases h with
  | complete h => exact h.exact
  | cut h _ => exact h.exact
  | overflow h _ =>
    intro i id hid
    have hi := (List.getElem?_eq_some_iff.mp hid).1
    rw [List.take_append_of_le_length (by rw [← h.length]; exact hi)]
    exact h.exact i id hid

theorem Listing.Runs.overflowsAt {l : Listing} {last step : UInt32} (h : l.Runs last)
    (hle : UInt32.size ≤ last.toNat + step.toNat) : OverflowsAt ⟨l.steps ++ [step], l.ids⟩ last :=
  ⟨l.steps, step, rfl, h.length, h.last.symm, by rw [← h.last]; exact hle⟩

/-! ## Ids of two bytes -/

theorem total_le {steps : List UInt32} (h : ∀ step ∈ steps, IsNarrow step) :
    total steps ≤ 65535 * steps.length := by
  induction steps with
  | nil => simp
  | cons step steps ih =>
    rw [List.forall_mem_cons] at h
    have hstep := h.1
    have := ih h.2
    simp only [total, IsNarrow, List.map_cons, List.sum_cons, List.length_cons] at *
    omega

theorem Listing.narrow_read : ∀ (count : Nat) {l : Listing} (last : UInt32) (c : Cursor),
    (∀ step ∈ l.steps, IsNarrow step) →
    (l.read false last count c).1.steps.length ≤ l.steps.length + count ∧
      ∀ step ∈ (l.read false last count c).1.steps, IsNarrow step
  | 0, l, last, c, h => ⟨Nat.le_refl _, h⟩
  | count + 1, l, last, c, h => by
    unfold read
    cases hr : readId false c with
    | error e => exact ⟨Nat.le_add_right .., h⟩
    | ok p =>
      have hp : IsNarrow p.1 := (other_readId false).of_ok trivial hr rfl
      have hsteps : ∀ step ∈ l.steps ++ [p.1], IsNarrow step := by
        intro step hs
        obtain hs | hs := List.mem_append.mp hs
        · exact h step hs
        · rw [List.mem_singleton.mp hs]
          exact hp
      by_cases hlt : last.toNat + p.1.toNat < UInt32.size
      · simp only [if_pos hlt]
        obtain ⟨hl, hn⟩ := narrow_read count (l := ⟨l.steps ++ [p.1], l.ids ++ [last + p.1]⟩)
          (last + p.1) p.2 hsteps
        refine ⟨Nat.le_trans hl (Nat.le_of_eq ?_), hn⟩
        simp only [List.length_append, List.length_singleton]
        omega
      · simp only [if_neg hlt]
        refine ⟨?_, hsteps⟩
        simp only [List.length_append, List.length_singleton]
        omega

theorem Listing.total_ofCursor_le {count : UInt32} (h : IsNarrow count) (c : Cursor) {n : Nat} :
    total ((ofCursor false count c).1.steps.take n) ≤ 65535 * 65535 := by
  obtain ⟨hl, hn⟩ := narrow_read count.toNat (l := ⟨[], []⟩) 0 c (by simp)
  have hle := total_le fun step hs => hn step (List.mem_of_mem_take (i := n) hs)
  refine Nat.le_trans hle (Nat.mul_le_mul_left _ ?_)
  rw [List.length_take]
  have hc : count.toNat ≤ 65535 := h
  simp only [List.length_nil, Nat.zero_add] at hl
  omega

end Js5.ReferenceIndex
