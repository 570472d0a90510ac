import Js5.Proofs.Stripes.Columns

/-! # All bytes of a striped group are accounted for -/

namespace Js5.Stripes

/-- The files under their ids, cut into chunks of their lengths, are the data of the group: all of it that
the lengths account for, stripe by stripe and file by file. -/
structure Accounts (input : Bytes) (ids : List UInt32) (files : List (UInt32 × Bytes)) : Prop where
  keys : files.map Prod.fst = ids
  chunks : ∃ stripes : List (List Bytes), stripes.map (List.map List.length) = lengthTable input ids.length ∧
    files = columns ids stripes ∧ stripes.flatMap List.flatten = input.take (dataLength input ids.length)

theorem split_ok_or_error (input : Bytes) {ids : List UInt32} (hids : 2 ≤ ids.length) :
    (∃ files, split input ids = .ok files ∧ Accepted input ids.length ∧ Accounts input ids files) ∨
      ∃ e, split input ids = .error e ∧ Refusal input ids e := by
  rw [split_eq hids]
  cases hc : chunks input ids with
  | error e => exact .inr ⟨e, rfl, refusal_of_chunks hc⟩
  | ok stripes =>
    obtain ⟨ha, hlengths, hdata⟩ := accepted_of_chunks hc
    exact .inl ⟨_, rfl, ha, map_fst_columns ids stripes, stripes, hlengths, rfl, hdata⟩

/-- **What splits is accounted for.** A group of two files or more splits just if the trailer is all there
and says lengths that fit in front of it. Otherwise there is a reason, and only one. -/
theorem split_accounts (input : Bytes) {ids : List UInt32} (hids : 2 ≤ ids.length) :
    ((∃ files, split input ids = .ok files) ↔ Accepted input ids.length) ∧
      (∀ files, split input ids = .ok files → Accounts input ids files) ∧
      ∀ e, split input ids = .error e ↔ Refusal input ids e := by
  rcases split_ok_or_error input hids with ⟨files, hs, ha, hf⟩ | ⟨e, hs, hr⟩
  · refine ⟨⟨fun _ => ha, fun _ => ⟨files, hs⟩⟩, ?_, ?_⟩
    · intro files' h
      cases hs.symm.trans h
      exact hf
    · refine fun e => ⟨fun h => ?_, fun h => absurd ha h.not_accepted⟩
      cases hs.symm.trans h
  · refine ⟨⟨?_, fun ha => absurd ha hr.not_accepted⟩, ?_, ?_⟩
    · rintro ⟨files, h⟩
      cases hs.symm.trans h
    · intro files h
      cases hs.symm.trans h
    · intro e'
      refine ⟨fun h => ?_, fun h => hr.unique h ▸ hs⟩
      cases hs.symm.trans h
      exact hr

/-- Two stripes, the lengths in which go down and up, with one byte that no chunk takes; and the same
trailer with a number that goes down too far. -/
theorem split_accounts_two_stripes :
    let input (down : UInt8) : Bytes :=
      [1, 2, 3, 4, 5, 6, 42] ++ [0, 0, 0, 3] ++ [255, 255, 255, down] ++ [0, 0, 0, 0] ++ [0, 0, 0, 2] ++ [2]
    split (input 254) [4, 9] = .ok [(4, [1, 2, 3]), (9, [4, 5, 6])] ∧ Accepted (input 254) 2 ∧
      Accounts (input 254) [4, 9] [(4, [1, 2, 3]), (9, [4, 5, 6])] ∧
      Refusal (input 252) [4, 9] (.invalidChunkLength 0 9 (-1)) := by
  intro input
  have hok : split (input 254) [4, 9] = .ok [(4, [1, 2, 3]), (9, [4, 5, 6])] := by decide +kernel
  have herror : split (input 252) [4, 9] = .error (.invalidChunkLength 0 9 (-1)) := by decide +kernel
  obtain ⟨hiff, hfiles, -⟩ := @split_accounts (input 254) [4, 9] (by decide)
  refine ⟨hok, hiff.mp ⟨_, hok⟩, hfiles _ hok, ?_⟩
  exact ((@split_accounts (input 252) [4, 9] (by decide)).2.2 _).mp herror

end Js5.Stripes
