import Js5.Proofs.Stripes.Columns

/-!
# Groups made of files

A group that is cut out of files comes apart into the same files.
-/

namespace Js5.Stripes

theorem flatMap_cut {n : Nat} (hn : 0 < n) (file : Bytes) :
    ((List.range n).flatMap fun i => cut n i file) = file := by
  have h : ∀ m, ((List.range m).flatMap fun i => cut n i file) = file.take (m * file.length / n) := by
    intro m
    induction m with
    | zero => simp
    | succ m ih =>
      have hle : m * file.length / n ≤ (m + 1) * file.length / n := by
        apply Nat.div_le_div_right
        exact Nat.mul_le_mul_right _ (Nat.le_succ m)
      have hc := List.take_append_drop (m * file.length / n) (file.take ((m + 1) * file.length / n))
      rw [List.take_take, Nat.min_eq_left hle] at hc
      rw [List.range_succ, List.flatMap_append, ih, ← hc]
      simp [cut]
  rw [h, Nat.mul_div_cancel_left _ hn, List.take_length]

theorem length_le_join {stripes : List (List Bytes)} {stripe : List Bytes} {chunk : Bytes}
    (hs : stripe ∈ stripes) (hc : chunk ∈ stripe) (unused : Bytes) :
    chunk.length ≤ (join stripes unused).length := by
  have hc := (List.sublist_flatten_of_mem hc).length_le
  have hs := (List.sublist_flatten_of_mem (List.mem_map_of_mem (f := List.flatten) hs)).length_le
  rw [← List.flatMap_def] at hs
  unfold join
  simp only [List.length_append]
  omega

section
variable {n : Nat} {files : List (UInt32 × Bytes)}

theorem chunks_ofFiles (hn : n < 256) (h : 2 ≤ files.length)
    (hd : (ofFiles n (files.map Prod.snd)).length < 2 ^ 31) :
    chunks (ofFiles n (files.map Prod.snd)) (files.map Prod.fst) =
      .ok ((List.range n).map fun i => (files.map Prod.snd).map (cut n i)) := by
  have ho : ofFiles n (files.map Prod.snd) =
      join ((List.range n).map fun i => (files.map Prod.snd).map (cut n i)) [] := by
    match files, h with
    | a :: b :: files, _ => rfl
  rw [ho] at hd ⊢
  apply chunks_join
  · simpa using hn
  · intro s hs
    refine ⟨?_, fun c hc => Nat.lt_of_le_of_lt (length_le_join hs hc []) hd⟩
    obtain ⟨i, -, rfl⟩ := List.mem_map.mp hs
    simp

theorem columns_cut (hn : 0 < n) :
    columns (files.map Prod.fst) ((List.range n).map fun i => (files.map Prod.snd).map (cut n i)) =
      files := by
  apply List.ext_getElem
  · simp [columns]
  · intro i _ hi
    simp [columns, column, List.flatMap_map, List.getD_eq_getElem?_getD, hi, flatMap_cut hn]

theorem split_ofFiles_of_le (hn : 0 < n) (hn' : n < 256) (h : 2 ≤ files.length)
    (hd : (ofFiles n (files.map Prod.snd)).length < 2 ^ 31) :
    split (ofFiles n (files.map Prod.snd)) (files.map Prod.fst) = .ok files := by
  rw [split_eq (by simpa using h), chunks_ofFiles hn' h hd]
  exact congrArg Except.ok (columns_cut hn)

theorem split_ofFiles (hn : 0 < n) (hn' : n < 256) (h : files ≠ [])
    (hd : (ofFiles n (files.map Prod.snd)).length < 2 ^ 31) :
    split (ofFiles n (files.map Prod.snd)) (files.map Prod.fst) = .ok files := by
  match files, h with
  | [f], _ => rfl
  | a :: b :: rest, _ => exact split_ofFiles_of_le hn hn' (by simp) hd

theorem file_ofFiles_of_le (hn : 0 < n) (hn' : n < 256) (h : 2 ≤ files.length)
    (hd : (ofFiles n (files.map Prod.snd)).length < 2 ^ 31)
    (hinj : ∀ a ∈ files, ∀ b ∈ files, a.1 = b.1 → a = b) {f : UInt32 × Bytes} (hm : f ∈ files) :
    file (ofFiles n (files.map Prod.snd)) (files.map Prod.fst) f.1 = .ok f.2 := by
  have hagree := fileOfSplit (ofFiles n (files.map Prod.snd)) (files.map Prod.fst) f.1
  obtain ⟨data, hl, hf⟩ :=
    hagree.listed (by simpa using h) (List.mem_map_of_mem hm) files (split_ofFiles_of_le hn hn' h hd)
  obtain ⟨before, after, hat, -⟩ := List.lookup_eq_some_iff.mp hl
  have hdata : (f.1, data) ∈ files := by simp [hat]
  rw [hf, ← hinj _ hdata f hm rfl]

theorem file_ofFiles (hn : 0 < n) (hn' : n < 256) (hd : (ofFiles n (files.map Prod.snd)).length < 2 ^ 31)
    (hinj : ∀ a ∈ files, ∀ b ∈ files, a.1 = b.1 → a = b) {f : UInt32 × Bytes} (hm : f ∈ files) :
    file (ofFiles n (files.map Prod.snd)) (files.map Prod.fst) f.1 = .ok f.2 := by
  match files, hm with
  | [g], hm =>
    cases List.mem_singleton.mp hm
    rfl
  | a :: b :: rest, hm => exact file_ofFiles_of_le hn hn' (by simp) hd hinj hm

end

end Js5.Stripes
