import Js5.Proofs.Outcome
import Js5.Proofs.Stripes.Trailer

/-!
# Files as columns

The chunks of a group are a table with a row for each stripe and a column for each file. Splitting a group
gives all columns, asking for one file gives one of them, and both fail alike where there is no such table.
-/

namespace Js5.Stripes

def column (stripes : List (List Bytes)) (place : Nat) : Bytes := stripes.flatMap (·.getD place [])

def columns (ids : List UInt32) (stripes : List (List Bytes)) : List (UInt32 × Bytes) :=
  ids.mapIdx fun place id => (id, column stripes place)

@[simp] theorem column_nil (place : Nat) : column [] place = [] := rfl

@[simp] theorem column_cons (s : List Bytes) (stripes : List (List Bytes)) (place : Nat) :
    column (s :: stripes) place = s.getD place [] ++ column stripes place := rfl

/-! ## Columns -/

@[simp] theorem map_fst_columns (ids : List UInt32) (stripes : List (List Bytes)) :
    (columns ids stripes).map Prod.fst = ids := by
  apply List.ext_getElem <;> simp [columns]

theorem lookup_mapIdx (f : Nat → Bytes) (ids : List UInt32) (id : UInt32) :
    (ids.mapIdx fun place id => (id, f place)).lookup id = (ids.idxOf? id).map f := by
  induction ids generalizing f with
  | nil => rfl
  | cons a ids ih =>
    rw [List.mapIdx_cons, List.lookup_cons, List.idxOf?_cons, ih fun place => f (place + 1)]
    by_cases h : a = id
    · simp [h]
    · simp [h, beq_false_of_ne (Ne.symm h), Function.comp_def]

theorem foldr_zipWith_append_eq {n : Nat} {stripes : List (List Bytes)} (h : ∀ s ∈ stripes, s.length = n) :
    stripes.foldr (List.zipWith (· ++ ·)) (List.replicate n []) = (List.range n).map (column stripes) := by
  induction stripes with
  | nil => apply List.ext_getElem <;> simp
  | cons s stripes ih =>
    have hs := h s (List.mem_cons_self ..)
    rw [List.foldr_cons, ih fun s' h' => h s' (List.mem_cons_of_mem _ h')]
    apply List.ext_getElem
    · simp [hs]
    · intro i hi _
      have hi : i < s.length := by simp at hi; omega
      simp [hi]

theorem zip_map_range (ids : List UInt32) (stripes : List (List Bytes)) :
    ids.zip ((List.range ids.length).map (column stripes)) = columns ids stripes := by
  apply List.ext_getElem <;> simp [columns]

theorem split_eq {input : Bytes} {ids : List UInt32} (h : 2 ≤ ids.length) :
    split input ids = (chunks input ids).map (columns ids) := by
  rw [split_of_le h]
  cases hc : chunks input ids with
  | error e => rfl
  | ok stripes =>
    simp only [Except.map]
    rw [foldr_zipWith_append_eq (length_of_chunks hc), zip_map_range]

/-- **Any chunking.** A group laid out in any stripes of any chunks, with any bytes in front of its trailer,
comes apart into files, each the chunks of its column. -/
theorem split_join {ids : List UInt32} (hids : 2 ≤ ids.length) {stripes : List (List Bytes)}
    (hn : stripes.length ≤ 255)
    (h : ∀ s ∈ stripes, s.length = ids.length ∧ ∀ chunk ∈ s, chunk.length < 2 ^ 31) (unused : Bytes) :
    split (join stripes unused) ids =
      .ok (ids.mapIdx fun place id => (id, stripes.flatMap fun s => s.getD place [])) := by
  rw [split_eq hids, chunks_join unused (by omega) h]
  rfl

/-- Two uneven stripes with empty chunks, and two bytes that no chunk takes; and no stripe at all. -/
theorem split_join_uneven :
    let ids : List UInt32 := [0, 1, 3]
    let stripes : List (List Bytes) := [[[0], [3, 4, 5, 6, 7], []], [[1, 2], [], [8, 9]]]
    split (join stripes [42, 42]) ids = .ok [(0, [0, 1, 2]), (1, [3, 4, 5, 6, 7]), (3, [8, 9])] ∧
      split (join [] [42, 42]) ids = .ok [(0, []), (1, []), (3, [])] := by
  intro ids stripes
  have hids : 2 ≤ ids.length := by decide
  have hstripes : ∀ s ∈ stripes, s.length = ids.length ∧ ∀ chunk ∈ s, chunk.length < 2 ^ 31 := by decide
  exact ⟨split_join hids (by decide) hstripes [42, 42],
    split_join hids (by decide) (List.forall_mem_nil _) [42, 42]⟩

/-! ## One file -/

structure FileOfSplit (input : Bytes) (ids : List UInt32) (id : UInt32) : Prop where
  empty : ids = [] → split input ids = .error .empty ∧ file input ids id = .error .empty
  single (only : UInt32) :
    ids = [only] → split input ids = .ok [(only, input)] ∧ file input ids id = .ok input
  listed : 2 ≤ ids.length → id ∈ ids → ∀ files, split input ids = .ok files →
    ∃ data, files.lookup id = some data ∧ file input ids id = .ok data
  fault : 2 ≤ ids.length → id ∈ ids → ∀ e, split input ids = .error e → file input ids id = .error e
  unlisted : 2 ≤ ids.length → id ∉ ids → file input ids id = .error (.fileOutOfRange id ids.length)

theorem file_eq_column (input : Bytes) {ids : List UInt32} (h : 2 ≤ ids.length) {id : UInt32}
    (hid : id ∈ ids) :
    ∃ place, ids.idxOf? id = some place ∧
      file input ids id = (chunks input ids).map fun stripes => column stripes place := by
  cases hp : ids.idxOf? id with
  | none => exact absurd hid (List.idxOf?_eq_none_iff.mp hp)
  | some place => exact ⟨place, rfl, file_of_le h hp⟩

theorem file_of_split_error {input : Bytes} {ids : List UInt32} {id : UInt32} {e : Error}
    (h : split input ids = .error e) (hid : ids.length < 2 ∨ id ∈ ids) : file input ids id = .error e := by
  match ids, h, hid with
  | [], h, _ =>
    cases h
    rfl
  | [_], h, _ => cases h
  | a :: b :: ids, h, hid =>
    have hl : 2 ≤ (a :: b :: ids).length := Nat.le_add_left 2 ids.length
    obtain ⟨place, -, hf⟩ := file_eq_column input hl (hid.resolve_left (Nat.not_lt.mpr hl))
    rw [split_eq hl] at h
    rw [hf, map_eq_error h]
    rfl

theorem fileOfSplit (input : Bytes) (ids : List UInt32) (id : UInt32) : FileOfSplit input ids id where
  empty h := by
    subst h
    exact ⟨rfl, rfl⟩
  single only h := by
    subst h
    exact ⟨rfl, rfl⟩
  listed h hid files hs := by
    obtain ⟨place, hp, hf⟩ := file_eq_column input h hid
    rw [split_eq h] at hs
    obtain ⟨stripes, hc, rfl⟩ := map_eq_ok hs
    refine ⟨column stripes place, ?_, by rw [hf, hc]; rfl⟩
    rw [columns, lookup_mapIdx, hp, Option.map_some]
  fault _ hid _ hs := file_of_split_error hs (.inr hid)
  unlisted h hid := file_of_notMem h hid

/-- A trailer that does not fit is not seen where the file is not listed. -/
example :
    split [0, 0, 5] [0, 1] = .error (.trailerTooLarge 5 2 3) ∧
      file [0, 0, 5] [0, 1] 1 = .error (.trailerTooLarge 5 2 3) ∧
      file [0, 0, 5] [0, 1] 7 = .error (.fileOutOfRange 7 2) := by decide

theorem map_fst_of_split {input : Bytes} {ids : List UInt32} {files : List (UInt32 × Bytes)}
    (h : split input ids = .ok files) : files.map Prod.fst = ids := by
  match ids, h with
  | [], h => cases h
  | [id], h =>
    cases h
    rfl
  | a :: b :: ids, h =>
    have hl : 2 ≤ (a :: b :: ids).length := Nat.le_add_left 2 ids.length
    rw [split_eq hl] at h
    obtain ⟨stripes, -, rfl⟩ := map_eq_ok h
    exact map_fst_columns _ stripes

end Js5.Stripes
