import Js5.Proofs.Checked.Slices
import Js5.Proofs.Outcome
import Js5.Proofs.Stripes.Trailer

/-! # Chunks stay within their group: their lengths add up to no more than is in front of the trailer -/

namespace Js5.Stripes

def Error.IsProper (e : Error) : Prop := ∀ s, e ≠ .outOfBounds s

/-! ## The chunks -/

def cutStripe? (input : Bytes) : (start : Nat) → List Nat → Option (List Bytes × Nat)
  | start, [] => some ([], start)
  | start, length :: lengths => do
    let chunk ← input.slice? start (start + length)
    let (chunks, stop) ← cutStripe? input (start + length) lengths
    return (chunk :: chunks, stop)

def cut? (input : Bytes) : (start : Nat) → List (List Nat) → Option (List (List Bytes))
  | _, [] => some []
  | start, stripe :: stripes => do
    let (chunks, stop) ← cutStripe? input start stripe
    return chunks :: (← cut? input stop stripes)

def chunks? (input : Bytes) (ids : List UInt32) : Checked Error (List (List Bytes)) := do
  let lengths ← liftM ((readLengths input ids).run' (.ofBytes input))
  cut? input 0 lengths

theorem cutStripe?_append : ∀ (chunks : List Bytes) (before behind : Bytes),
    cutStripe? (before ++ (chunks.flatten ++ behind)) before.length (chunks.map List.length) =
      some (chunks, (before ++ chunks.flatten).length)
  | [], before, behind => by
    rw [List.flatten_nil, List.append_nil]
    rfl
  | chunk :: chunks, before, behind => by
    have h := cutStripe?_append chunks (before ++ chunk) behind
    have hpart := Bytes.slice?_append before chunk (chunks.flatten ++ behind)
    rw [List.length_append] at h
    rw [List.flatten_cons, List.append_assoc, ← List.append_assoc before, List.map_cons]
    unfold cutStripe?
    rw [hpart]
    simp only [Option.bind_eq_bind, Option.bind_some, h]
    rw [List.append_assoc]
    rfl

theorem cut?_append : ∀ (stripes : List (List Bytes)) (before behind : Bytes),
    cut? (before ++ (stripes.flatMap List.flatten ++ behind)) before.length
      (stripes.map (List.map List.length)) =
      some stripes
  | [], _, _ => rfl
  | s :: stripes, before, behind => by
    have h := cut?_append stripes (before ++ s.flatten) behind
    have hs := cutStripe?_append s before (stripes.flatMap List.flatten ++ behind)
    rw [List.append_assoc] at h
    rw [List.flatMap_cons, List.append_assoc, List.map_cons]
    unfold cut?
    rw [hs]
    simp only [Option.bind_eq_bind, Option.bind_some, h]
    rfl

theorem chunks?_eq (input : Bytes) (ids : List UInt32) :
    (chunks? input ids).run = some (chunks input ids) := by
  unfold chunks?
  show ((liftM (Prod.fst <$> readLengths input ids (.ofBytes input)) :
    Checked Error (List (List Nat))) >>= _).run = _
  cases hr : readLengths input ids (.ofBytes input) with
  | error e =>
    rw [chunks_of_error hr]
    rfl
  | ok p =>
    obtain ⟨stripes, behind, hl, hb, hc⟩ := chunks_of_readLengths hr
    have hcut := cut?_append stripes [] behind
    rw [List.nil_append, ← hl, ← hb] at hcut
    change cut? input 0 p.1 = some stripes at hcut
    rw [hc]
    show ((liftM (cut? input 0 p.1) : Checked Error (List (List Bytes)))).run = _
    rw [hcut]
    rfl

theorem Refusal.isProper {input : Bytes} {ids : List UInt32} {e : Error} (h : Refusal input ids e) :
    e.IsProper := by
  rintro s rfl
  cases h with
  | chunk _ _ _ _ hf => cases hf

theorem chunks_isProper {input : Bytes} {ids : List UInt32} {e : Error}
    (h : chunks input ids = .error e) : e.IsProper :=
  (refusal_of_chunks h).isProper

/-! ## Files -/

def split? (input : Bytes) (ids : List UInt32) : Checked Error (List (UInt32 × Bytes)) :=
  match ids with
  | [] => throw .empty
  | [id] => return [(id, input)]
  | ids => do
    let stripes ← chunks? input ids
    return ids.zip (stripes.foldr (List.zipWith (· ++ ·)) (List.replicate ids.length []))

def file? (input : Bytes) (ids : List UInt32) (id : UInt32) : Checked Error Bytes :=
  match ids with
  | [] => throw .empty
  | [_] => return input
  | ids =>
    match ids.idxOf? id with
    | none => throw (.fileOutOfRange id ids.length)
    | some place => do
      let stripes ← chunks? input ids
      return stripes.flatMap (·.getD place [])

theorem split?_eq (input : Bytes) (ids : List UInt32) : (split? input ids).run = some (split input ids) := by
  match ids with
  | [] | [_] => rfl
  | _ :: _ :: _ => exact Checked.bind_of (chunks?_eq input _) fun stripes _ => rfl

theorem file?_eq (input : Bytes) (ids : List UInt32) (id : UInt32) :
    (file? input ids id).run = some (file input ids id) := by
  match ids with
  | [] | [_] => rfl
  | a :: b :: ids =>
    unfold file? file
    simp only
    cases (a :: b :: ids).idxOf? id with
    | none => rfl
    | some place => exact Checked.bind_of (chunks?_eq input _) fun stripes _ => rfl

theorem length_column_le (place : Nat) : ∀ stripes : List (List Bytes),
    (stripes.flatMap (·.getD place [])).length ≤ (stripes.flatMap List.flatten).length
  | [] => Nat.le_refl _
  | s :: stripes => by
    have ih := length_column_le place stripes
    have hs : (s.getD place []).length ≤ s.flatten.length := by
      rw [List.getD_eq_getElem?_getD]
      cases hp : s[place]? with
      | none => exact Nat.zero_le _
      | some chunk => exact (List.sublist_flatten_of_mem (List.mem_of_getElem? hp)).length_le
    rw [List.flatMap_cons, List.flatMap_cons, List.length_append, List.length_append]
    omega

theorem length_file_le {input b : Bytes} {ids : List UInt32} {id : UInt32} (h : file input ids id = .ok b) :
    b.length ≤ input.length := by
  match ids with
  | [] => cases h
  | [_] =>
    cases h
    exact Nat.le_refl _
  | x :: y :: ids =>
    have hl : 2 ≤ (x :: y :: ids).length := Nat.le_add_left 2 ids.length
    cases hp : (x :: y :: ids).idxOf? id with
    | none =>
      unfold file at h
      simp only [hp] at h
      cases h
    | some place =>
      rw [file_of_le hl hp] at h
      obtain ⟨stripes, hc, rfl⟩ := map_eq_ok h
      have hle := length_column_le place stripes
      rw [(accepted_of_chunks hc).2.2, List.length_take] at hle
      exact hle.trans (Nat.min_le_right ..)

theorem split_ne_outOfBounds (input : Bytes) (ids : List UInt32) (e : OutOfBounds) :
    split input ids ≠ .error (.outOfBounds e) := by
  intro h
  match ids with
  | [] | [_] => cases h
  | a :: b :: ids =>
    have hl : 2 ≤ (a :: b :: ids).length := Nat.le_add_left 2 ids.length
    rw [split_of_le hl] at h
    exact chunks_isProper (map_eq_error h) e rfl

theorem file_ne_outOfBounds (input : Bytes) (ids : List UInt32) (id : UInt32) (e : OutOfBounds) :
    file input ids id ≠ .error (.outOfBounds e) := by
  intro h
  match ids with
  | [] | [_] => cases h
  | a :: b :: ids =>
    have hl : 2 ≤ (a :: b :: ids).length := Nat.le_add_left 2 ids.length
    cases hp : (a :: b :: ids).idxOf? id with
    | none =>
      unfold file at h
      simp only [hp] at h
      cases h
    | some place =>
      rw [file_of_le hl hp] at h
      exact chunks_isProper (map_eq_error h) e rfl

end Js5.Stripes
