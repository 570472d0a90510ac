import Js5.Proofs.Cursor.Yields
import Js5.Proofs.ReferenceIndex

/-!
# Fields of reference indexes

What holds of every field and passes from one step to the next holds of a whole index.
-/

namespace Js5.ReferenceIndex

open Cursor (Delimited Takes Yields)

inductive Field : {α : Type} → Cursor.Read α → Prop
  | bytes (n : Nat) : Field (Cursor.take n)
  | smart : Field Cursor.smart
  | value {α β : Type} {read : Cursor.Read α} (h : Field read) (f : α → β) : Field (do return f (← read))

/-- Readers that do nothing else than read fields. They may refuse what they have read. -/
inductive Plain : {α : Type} → Read α → Prop
  | pure {α : Type} (v : α) : Plain (pure v)
  | throw {α : Type} {e : Error} (h : ∀ s, e ≠ .outOfBounds s) : Plain (throw e : Read α)
  | field {α : Type} {read : Cursor.Read α} (h : Field read) : Plain (liftM read)
  | bind {α β : Type} {read : Read α} {f : α → Read β} (h : Plain read) (hf : ∀ v, Plain (f v)) :
    Plain (read >>= f)

theorem Plain.map {α β : Type} {read : Read α} (h : Plain read) (f : α → β) : Plain (do return f (← read)) :=
  h.bind fun v => .pure (f v)

theorem Plain.mapM {α β : Type} {f : α → Read β} (h : ∀ x, Plain (f x)) :
    ∀ rows : List α, Plain (rows.mapM f)
  | [] => by
    rw [List.mapM_nil]
    exact .pure []
  | x :: rows => by
    rw [List.mapM_cons]
    exact (h x).bind fun y => (Plain.mapM h rows).map (y :: ·)

/-! ## Fields are delimited -/

def smartBehind (first : UInt8) : Cursor.Read UInt32 :=
  if first &&& 0x80 != 0 then return (← Cursor.u32) &&& 0x7fffffff
  else return (← Cursor.u16).toUInt32

theorem smart_of_cons {c : Cursor} {x : UInt8} {tail : Bytes} (h : c.rest = x :: tail) :
    Cursor.smart c = smartBehind x c := by
  unfold Cursor.smart
  rw [Cursor.bind_of_ok (Cursor.peek_eq h)]
  rfl

theorem delimited_smartBehind (x : UInt8) : Delimited (fun _ => True) (smartBehind x) := by
  unfold smartBehind
  split
  · exact ((Cursor.delimited_take 4).map _).map _
  · exact ((Cursor.delimited_take 2).map _).map _

theorem takes_smartBehind (x : UInt8) : Takes 2 (smartBehind x) := by
  unfold smartBehind
  split
  · exact (((Cursor.takes_take 4).map _).map _).mono fun _ _ h => Nat.le_trans (by decide) h
  · exact ((Cursor.takes_take 2).map _).map _

/-- The first byte of an id is one of its bytes, and says which of the two forms it has. -/
theorem yields_smart {S : UInt32 → Bytes → Prop}
    (h : ∀ x, Yields (smartBehind x) fun v b => b.head? = some x → S v b) : Yields Cursor.smart S := by
  intro c c' v hr
  cases hc : c.rest with
  | nil =>
    rw [Cursor.smart_of_nil hc] at hr
    cases hr
  | cons x tail =>
    rw [smart_of_cons hc] at hr
    obtain ⟨b, hb, hs, hl⟩ := ((h x).and (takes_smartBehind x)) c c' v hr
    refine ⟨b, hc ▸ hb, hs ?_⟩
    cases b with
    | nil => cases hl
    | cons y b => rw [(List.cons.inj (hc.symm.trans hb)).1, List.head?_cons]

theorem takes_smart : Takes 2 Cursor.smart :=
  yields_smart fun x => (takes_smartBehind x).mono fun _ _ h _ => h

theorem delimited_smart : Delimited (fun _ => True) Cursor.smart := by
  refine yields_smart fun x => (delimited_smartBehind x).mono fun v b hd hx => ?_
  obtain ⟨b, rfl⟩ := List.head?_eq_some_iff.mp hx
  refine ⟨fun c tail hc => ?_, fun c missing hc hm => ?_⟩
  · rw [smart_of_cons hc]
    exact hd.consumes c tail hc
  · cases hrest : c.rest with
    | nil => exact ⟨_, Cursor.smart_of_nil hrest, trivial⟩
    | cons y rest =>
      obtain rfl : y = x := by
        rw [hrest] at hc
        exact (List.cons.inj hc).1
      rw [smart_of_cons hrest]
      exact hd.needs c missing hc hm

/-! ## What holds of all fields -/

def Error.IsShortage (e : Error) : Prop := ∃ s, e = .outOfBounds s

theorem Field.delimited {α : Type} {read : Cursor.Read α} (h : Field read) :
    Delimited (fun _ => True) read := by
  induction h with
  | bytes n => exact Cursor.delimited_take n
  | smart => exact delimited_smart
  | value _ f ih => exact ih.map f

theorem Plain.delimited {α : Type} {read : Read α} (h : Plain read) : Delimited Error.IsShortage read := by
  induction h with
  | pure v => exact Cursor.delimited_pure v
  | throw => exact Cursor.yields_throw
  | field h => exact h.delimited.mapError fun s _ => ⟨s, rfl⟩
  | bind _ _ ih ihf => exact ih.bind ihf

theorem Plain.takes {α : Type} {read : Read α} (h : Plain read) : Takes 0 read :=
  h.delimited.mono fun _ _ _ => Nat.zero_le _

/-! ## An index is read in fields -/

theorem plain_u8 : Plain (liftM Cursor.u8) := .field ((Field.bytes 1).value _)

theorem plain_u32 : Plain (liftM Cursor.u32) := .field ((Field.bytes 4).value _)

theorem plain_i32 : Plain (liftM Cursor.i32) := .field (((Field.bytes 4).value _).value _)

theorem plain_readId (wide : Bool) : Plain (readId wide) := by
  unfold readId
  split
  · exact .field .smart
  · exact (Plain.field ((Field.bytes 2).value _)).map _

theorem plain_readIds (wide : Bool) : ∀ (count : Nat) (last : UInt32) (done : Array UInt32),
    Plain (readIds wide last done count)
  | 0, _, done => .pure done
  | count + 1, last, done => by
    unfold readIds
    refine (plain_readId wide).bind fun delta => ?_
    split
    · exact plain_readIds wide count _ _
    · exact .throw fun s hs => by cases hs

theorem plain_readIdList (wide : Bool) (count : UInt32) : Plain (readIdList wide count) :=
  (plain_readIds wide _ _ _).map _

theorem plain_column {α : Type} (present : Bool) (rows : List α) {read : α → Read α}
    (h : ∀ x, Plain (read x)) :
    Plain (column present rows read) := by
  unfold column
  split
  · exact Plain.mapM h rows
  · exact .pure rows

theorem plain_readColumns (index : ReferenceIndex) : Plain (readColumns index) := by
  unfold readColumns
  refine (plain_column _ _ fun g => plain_i32.map _).bind fun groups => ?_
  refine (plain_column _ _ fun g => plain_u32.map _).bind fun groups => ?_
  refine (plain_column _ _ fun g => plain_u32.map _).bind fun groups => ?_
  refine (plain_column _ _ fun g => (Plain.field (.bytes digestSize)).map _).bind fun groups => ?_
  refine (plain_column _ _ fun g => plain_u32.bind fun _ => plain_u32.map _).bind fun groups => ?_
  exact plain_column _ _ fun g => plain_u32.map _

theorem plain_readFiles (wide hasNames : Bool) (groups : List Group) :
    Plain (readFiles wide hasNames groups) := by
  have hfiles (p : Group × UInt32) : Plain (do
      return { p.1 with files := (← readIdList wide p.2).map fun id => ⟨id, -1⟩ }) :=
    (plain_readIdList wide p.2).map _
  unfold readFiles
  refine (Plain.mapM (fun _ => plain_readId wide) groups).bind fun counts => ?_
  refine (Plain.mapM hfiles (groups.zip counts)).bind fun groups => ?_
  exact plain_column _ _ fun g => (Plain.mapM (fun file => plain_i32.map _) g.files).map _

theorem plain_readBehind (protocol : UInt8) (version : Int32) : Plain (readBehind protocol version) := by
  unfold readBehind
  refine plain_u8.bind fun flags => ?_
  refine (plain_readId _).bind fun count => ?_
  refine (plain_readIdList _ count).bind fun ids => ?_
  refine (plain_readColumns _).bind fun groups => ?_
  exact (plain_readFiles _ _ groups).map _

theorem plain_readIndex : Plain readIndex := by
  rw [readIndex_eq]
  refine plain_u8.bind fun protocol => ?_
  split
  · exact .throw fun s hs => by cases hs
  · split
    · exact plain_i32.bind fun version => plain_readBehind _ _
    · exact plain_readBehind _ _

end Js5.ReferenceIndex
