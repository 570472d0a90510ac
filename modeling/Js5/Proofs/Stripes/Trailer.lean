import Js5.Proofs.Cursor.Triple
import Js5.Proofs.Stripes
import Mathlib.Algebra.Order.BigOperators.Group.Finset

/-!
# What a trailer says

The length of each chunk is a sum of numbers in the trailer, and the place where it starts is a sum of
lengths. If all of these sums are lengths and come to no more than there is in front of the trailer, the
group splits, and each byte that they account for is in one chunk of one file. If not, it does not split,
and the first chunk that does not fit is the one that is reported.
-/

namespace Js5.Stripes

open Cursor (Triple triple_pure triple_throw)

def readLengths (input : Bytes) (ids : List UInt32) : Read (List (List Nat)) := do
  let some stripes := input.getLast? | throw .missingTrailer
  let trailer := trailerSize stripes.toNat ids.length
  if input.length < trailer then
    throw (.trailerTooLarge stripes ids.length input.length)
  let limit := input.length - trailer
  Cursor.seek limit
  readStripes limit ids 0 0 #[] stripes.toNat

theorem readChunks_eq (input : Bytes) (ids : List UInt32) : readChunks input ids = (do
    let lengths ← readLengths input ids
    Cursor.seek 0
    lengths.mapM fun stripe => stripe.mapM fun length => liftM (Cursor.take length)) := by
  unfold readChunks readLengths
  cases input.getLast? with
  | none => rfl
  | some stripes =>
    simp only
    split
    · rfl
    · rw [bind_assoc]

/-! ## Lengths by their places -/

/-- A length is a number of 31 bits. -/
def IsLength (x : Int) : Prop := 0 ≤ x ∧ x < 2147483648

section
variable (input : Bytes) (n : Nat)

def stripeCount : Nat := (input.getLast?.getD 0).toNat

def trailerStart : Nat := input.length - trailerSize (stripeCount input) n

/-- The number that the trailer has for a file in a stripe: four bytes in two's complement. -/
def delta (stripe place : Nat) : Int :=
  Int.bmod (Bytes.toNat ((input.drop (trailerStart input n + 4 * (stripe * n + place))).take 4)) 4294967296

def runningSum (stripe count : Nat) : Int := ∑ k ∈ Finset.range count, delta input n stripe k

/-- What the trailer says the length of a chunk is. -/
def signedLength (stripe place : Nat) : Int := runningSum input n stripe (place + 1)

def chunkLength (stripe place : Nat) : Nat := (signedLength input n stripe place).toNat

/-- A chunk starts behind those of all stripes in front of its own, and those in front of it in its own. -/
def chunkStart (stripe place : Nat) : Nat :=
  (∑ i ∈ Finset.range stripe, ∑ j ∈ Finset.range n, chunkLength input n i j) +
    ∑ j ∈ Finset.range place, chunkLength input n stripe j

def dataLength : Nat := ∑ i ∈ Finset.range (stripeCount input), ∑ j ∈ Finset.range n, chunkLength input n i j

def lengthTable : List (List Nat) :=
  (List.range (stripeCount input)).map fun stripe => (List.range n).map (chunkLength input n stripe)

/-- The trailer is all there, all that it says of chunks are lengths, and these end in front of it. -/
structure Accepted : Prop where
  nonempty : input ≠ []
  trailerSize_le : trailerSize (stripeCount input) n ≤ input.length
  isLength (stripe place : Nat) : stripe < stripeCount input → place < n →
    IsLength (signedLength input n stripe place)
  dataLength_le : dataLength input n ≤ trailerStart input n

structure Fits (stripe place : Nat) : Prop where
  isLength : IsLength (signedLength input n stripe place)
  stop_le : chunkStart input n stripe place + chunkLength input n stripe place ≤ trailerStart input n

def FitsBefore (stripe place : Nat) : Prop :=
  ∀ i j, j < n → i < stripe ∨ i = stripe ∧ j < place → Fits input n i j

/-- What is wrong with a chunk of the file `id`: what should be its length is none, or it ends too late. -/
inductive ChunkFault (stripe place : Nat) (id : UInt32) : Error → Prop
  | invalid : ¬ IsLength (signedLength input n stripe place) →
      ChunkFault stripe place id (.invalidChunkLength stripe id (signedLength input n stripe place))
  | overrun : IsLength (signedLength input n stripe place) →
      trailerStart input n < chunkStart input n stripe place + chunkLength input n stripe place →
      ChunkFault stripe place id (.chunkOverrun stripe id
        (chunkStart input n stripe place + chunkLength input n stripe place) (trailerStart input n))

end

/-- Why a group of these files does not split. Of chunks it is the first that has a fault. -/
inductive Refusal (input : Bytes) (ids : List UInt32) : Error → Prop
  | missingTrailer : input = [] → Refusal input ids .missingTrailer
  | trailerTooLarge {stripes : UInt8} : input.getLast? = some stripes →
      input.length < trailerSize stripes.toNat ids.length →
      Refusal input ids (.trailerTooLarge stripes ids.length input.length)
  | chunk {stripe place : Nat} {id : UInt32} {e : Error} :
    trailerSize (stripeCount input) ids.length ≤ input.length →
      stripe < stripeCount input → ids[place]? = some id → FitsBefore input ids.length stripe place →
      ChunkFault input ids.length stripe place id e → Refusal input ids e

variable {input : Bytes} {n : Nat}

/-! ## Sums -/

theorem runningSum_succ (stripe place : Nat) :
    runningSum input n stripe place + delta input n stripe place = signedLength input n stripe place :=
  (Finset.sum_range_succ ..).symm

theorem chunkStart_succ (stripe place : Nat) : chunkStart input n stripe (place + 1) =
    chunkStart input n stripe place + chunkLength input n stripe place := by
  unfold chunkStart
  rw [Finset.sum_range_succ, Nat.add_assoc]

theorem chunkStart_next (stripe : Nat) : chunkStart input n (stripe + 1) 0 = chunkStart input n stripe n := by
  unfold chunkStart
  rw [Finset.sum_range_succ, Finset.sum_range_zero, Nat.add_zero]

theorem dataLength_eq_chunkStart : dataLength input n = chunkStart input n (stripeCount input) 0 := rfl

theorem sum_lengthTable : ((lengthTable input n).map List.sum).sum = dataLength input n := by
  unfold lengthTable
  rw [List.map_map]
  rfl

theorem stop_le_dataLength {stripe place : Nat} (hs : stripe < stripeCount input) (hp : place < n) :
    chunkStart input n stripe place + chunkLength input n stripe place ≤ dataLength input n := by
  have hrow : chunkStart input n stripe (place + 1) ≤ chunkStart input n stripe n := by
    apply Nat.add_le_add_left
    exact Finset.sum_le_sum_of_subset (Finset.range_mono hp)
  have htable : chunkStart input n (stripe + 1) 0 ≤ dataLength input n :=
    Finset.sum_le_sum_of_subset (Finset.range_mono hs)
  rw [← chunkStart_succ]
  rw [chunkStart_next] at htable
  exact hrow.trans htable

/-! ## Chunks that fit -/

theorem fitsBefore_zero_zero : FitsBefore input n 0 0 := by
  rintro i j - (h | ⟨-, h⟩)
  · cases h
  · cases h

theorem FitsBefore.succ {stripe place : Nat} (h : FitsBefore input n stripe place)
    (hp : Fits input n stripe place) :
    FitsBefore input n stripe (place + 1) := by
  rintro i j hj (hi | ⟨rfl, hlt⟩)
  · exact h i j hj (.inl hi)
  · rcases Nat.lt_succ_iff_lt_or_eq.mp hlt with hlt | rfl
    · exact h i j hj (.inr ⟨rfl, hlt⟩)
    · exact hp

theorem FitsBefore.next {stripe : Nat} (h : FitsBefore input n stripe n) :
    FitsBefore input n (stripe + 1) 0 := by
  rintro i j hj (hi | ⟨-, hlt⟩)
  · rcases Nat.lt_succ_iff_lt_or_eq.mp hi with hi | rfl
    · exact h i j hj (.inl hi)
    · exact h i j hj (.inr ⟨rfl, hj⟩)
  · cases hlt

theorem ChunkFault.not_fits {stripe place : Nat} {id : UInt32} {e : Error}
    (h : ChunkFault input n stripe place id e) :
    ¬ Fits input n stripe place := by
  intro hf
  cases h with
  | invalid h => exact h hf.isLength
  | overrun _ h => exact absurd hf.stop_le (Nat.not_le.mpr h)

theorem ChunkFault.unique {stripe place : Nat} {id : UInt32} {e e' : Error}
    (h : ChunkFault input n stripe place id e) (h' : ChunkFault input n stripe place id e') : e = e' := by
  cases h with
  | invalid h =>
    cases h' with
    | invalid => rfl
    | overrun hl => exact absurd hl h
  | overrun hl =>
    cases h' with
    | invalid h => exact absurd hl h
    | overrun => rfl

theorem Accepted.fits (h : Accepted input n) {stripe place : Nat} (hs : stripe < stripeCount input)
    (hp : place < n) :
    Fits input n stripe place where
  isLength := h.isLength stripe place hs hp
  stop_le := (stop_le_dataLength hs hp).trans h.dataLength_le

theorem FitsBefore.dataLength_le (h : FitsBefore input n (stripeCount input) 0) :
    dataLength input n ≤ trailerStart input n := by
  cases n with
  | zero =>
    simp only [dataLength, Finset.sum_range_zero, Finset.sum_const_zero, Nat.zero_le]
  | succ place =>
    rw [dataLength_eq_chunkStart]
    cases hs : stripeCount input with
    | zero => exact Nat.zero_le _
    | succ stripe =>
      have hlast := h stripe place (Nat.lt_succ_self _) (.inl (by rw [hs]; exact Nat.lt_succ_self _))
      rw [chunkStart_next, chunkStart_succ]
      exact hlast.stop_le

/-! ## Refusals -/

variable {ids : List UInt32}

theorem stripeCount_of_getLast? {stripes : UInt8} (h : input.getLast? = some stripes) :
    stripeCount input = stripes.toNat := by
  unfold stripeCount
  rw [h, Option.getD_some]

theorem Refusal.not_accepted {e : Error} (h : Refusal input ids e) : ¬ Accepted input ids.length := by
  intro ha
  cases h with
  | missingTrailer h => exact ha.nonempty h
  | trailerTooLarge hl h =>
    have hle := ha.trailerSize_le
    rw [stripeCount_of_getLast? hl] at hle
    exact absurd hle (Nat.not_le.mpr h)
  | chunk _ hs hid _ hf => exact hf.not_fits (ha.fits hs (List.getElem?_eq_some_iff.mp hid).1)

theorem Refusal.unique {e e' : Error} (h : Refusal input ids e) (h' : Refusal input ids e') : e = e' := by
  have hpos : 0 < trailerSize (stripeCount input) ids.length := Nat.succ_pos _
  cases h with
  | missingTrailer h =>
    subst h
    cases h' with
    | missingTrailer => rfl
    | trailerTooLarge hl => cases hl
    | chunk hle => exact absurd hle (Nat.not_le.mpr hpos)
  | trailerTooLarge hl hlt =>
    cases h' with
    | missingTrailer h =>
      subst h
      cases hl
    | trailerTooLarge hl' =>
      cases hl.symm.trans hl'
      rfl
    | chunk hle =>
      rw [stripeCount_of_getLast? hl] at hle
      exact absurd hle (Nat.not_le.mpr hlt)
  | @chunk stripe place id _ hle hs hid hb hf =>
    cases h' with
    | missingTrailer h =>
      subst h
      exact absurd hle (Nat.not_le.mpr hpos)
    | trailerTooLarge hl hlt =>
      rw [stripeCount_of_getLast? hl] at hle
      exact absurd hle (Nat.not_le.mpr hlt)
    | @chunk stripe' place' id' _ _ hs' hid' hb' hf' =>
      have hp := (List.getElem?_eq_some_iff.mp hid).1
      have hp' := (List.getElem?_eq_some_iff.mp hid').1
      -- The chunk that is earlier in storage order would have to fit.
      have h₁ : ¬ (stripe < stripe' ∨ stripe = stripe' ∧ place < place') :=
        fun h => hf.not_fits (hb' _ _ hp h)
      have h₂ : ¬ (stripe' < stripe ∨ stripe' = stripe ∧ place' < place) :=
        fun h => hf'.not_fits (hb _ _ hp' h)
      obtain rfl : stripe = stripe' := by omega
      obtain rfl : place = place' := by omega
      cases hid.symm.trans hid'
      exact hf.unique hf'

/-! ## Reading -/

theorem isLength_iff {x : Int} : IsLength x ↔ ¬ (x < 0 || lengthBound ≤ x) = true := by
  unfold IsLength lengthBound
  rw [Bool.or_eq_true, decide_eq_true_iff, decide_eq_true_iff]
  omega

def AtDelta (input : Bytes) (n k : Nat) (c : Cursor) : Prop :=
  c.data = input.toArray ∧ c.rest = input.drop (trailerStart input n + 4 * k)

theorem triple_delta (hle : trailerSize (stripeCount input) n ≤ input.length) {stripe place : Nat}
    (hs : stripe < stripeCount input) (hp : place < n) {E : Error → Prop} :
    Triple (AtDelta input n (stripe * n + place)) (liftM Cursor.i32 : Read Int32)
      (fun v c => v.toInt = delta input n stripe place ∧ AtDelta input n (stripe * n + (place + 1)) c) E := by
  rintro c ⟨hd, hc⟩
  have hroom : (stripe + 1) * n ≤ stripeCount input * n := Nat.mul_le_mul_right n hs
  rw [Nat.succ_mul] at hroom
  have hb : (c.rest.take 4).length = 4 := by
    rw [hc, List.length_take, List.length_drop]
    unfold trailerStart
    unfold trailerSize at hle ⊢
    omega
  obtain ⟨c', h, hd', hr⟩ :=
    consumes_lift (Cursor.consumes_i32 hb) c (c.rest.drop 4) (List.take_append_drop ..).symm
  rw [h]
  refine ⟨?_, hd'.trans hd, ?_⟩
  · rw [hc, Int32.toInt_ofNat']
    rfl
  · rw [hr, hc, List.drop_drop]
    congr 1

/-- From any place of a stripe on: by recursion on the files still to come, while all chunks so far fit. -/
theorem triple_readStripe (hle : trailerSize (stripeCount input) ids.length ≤ input.length) {stripe : Nat}
    (hs : stripe < stripeCount input) :
    ∀ (earlier later : List UInt32) (done : Array Nat), ids = earlier ++ later →
    done.toList = (List.range earlier.length).map (chunkLength input ids.length stripe) →
    FitsBefore input ids.length stripe earlier.length →
    Triple (AtDelta input ids.length (stripe * ids.length + earlier.length))
      (readStripe (trailerStart input ids.length) stripe (runningSum input ids.length stripe earlier.length)
        (chunkStart input ids.length stripe earlier.length) done later)
      (fun p c => (p.1.toList = (List.range ids.length).map (chunkLength input ids.length stripe) ∧
        p.2 = chunkStart input ids.length (stripe + 1) 0 ∧ FitsBefore input ids.length (stripe + 1) 0) ∧
        AtDelta input ids.length ((stripe + 1) * ids.length) c) (Refusal input ids)
  | earlier, [], done, hids, hdone, hb => by
    rw [List.append_nil] at hids
    subst hids
    unfold readStripe
    refine triple_pure fun c hc => ⟨⟨hdone, (chunkStart_next stripe).symm, hb.next⟩, ?_⟩
    rwa [Nat.succ_mul]
  | earlier, id :: later, done, hids, hdone, hb => by
    have hid : ids[earlier.length]? = some id := by
      rw [hids, List.getElem?_append_right (Nat.le_refl _), Nat.sub_self, List.getElem?_cons_zero]
    have hp := (List.getElem?_eq_some_iff.mp hid).1
    have hlen : (earlier ++ [id]).length = earlier.length + 1 := List.length_append
    unfold readStripe
    refine (triple_delta hle hs hp).bind fun v => .assume fun hv => ?_
    -- With the number that was read, the sum so far is the length of this chunk.
    simp only [hv, runningSum_succ]
    refine .check (fun hbad => .chunk hle hs hid hb (.invalid fun h => isLength_iff.mp h hbad)) fun hok => ?_
    have hlength := isLength_iff.mpr hok
    refine .check (fun hover => .chunk hle hs hid hb (.overrun hlength hover)) fun hstop => ?_
    have hrow : (done.push (chunkLength input ids.length stripe earlier.length)).toList =
        (List.range (earlier ++ [id]).length).map (chunkLength input ids.length stripe) := by
      rw [Array.toList_push, hdone, hlen, List.range_succ, List.map_append, List.map_singleton]
    have hnext : FitsBefore input ids.length stripe (earlier ++ [id]).length := by
      rw [hlen]
      exact hb.succ ⟨hlength, Nat.not_lt.mp hstop⟩
    have h := triple_readStripe hle hs (earlier ++ [id]) later _ (by rw [hids, List.append_assoc]; rfl)
      hrow hnext
    rw [hlen, chunkStart_succ] at h
    exact h

theorem triple_readStripes (hle : trailerSize (stripeCount input) ids.length ≤ input.length) :
    ∀ (left stripe : Nat) (done : Array (List Nat)), stripe + left = stripeCount input →
    done.toList =
      (List.range stripe).map (fun i => (List.range ids.length).map (chunkLength input ids.length i)) →
    FitsBefore input ids.length stripe 0 →
    Triple (AtDelta input ids.length (stripe * ids.length))
      (readStripes (trailerStart input ids.length) ids stripe (chunkStart input ids.length stripe 0)
        done left)
      (fun lengths c =>
        (lengths = lengthTable input ids.length ∧ FitsBefore input ids.length (stripeCount input) 0) ∧
        c.data = input.toArray) (Refusal input ids)
  | 0, stripe, done, hs, hdone, hb => by
    rw [Nat.add_zero] at hs
    subst hs
    exact triple_pure fun c hc => ⟨⟨hdone, hb⟩, hc.1⟩
  | left + 1, stripe, done, hs, hdone, hb => by
    unfold readStripes
    refine (triple_readStripe hle (by omega) [] ids #[] rfl rfl hb).bind fun p => .assume ?_
    obtain ⟨lengths, stop⟩ := p
    rintro ⟨hrow, rfl, hb⟩
    refine triple_readStripes hle left (stripe + 1) _ (by omega) ?_ hb
    rw [Array.toList_push, hdone, hrow, List.range_succ, List.map_append, List.map_singleton]

theorem triple_seek_trailer {E : Error → Prop} :
    Triple (fun c => c.data = input.toArray) (liftM (Cursor.seek (trailerStart input n)) : Read Unit)
      (fun _ c => AtDelta input n 0 c) E := by
  intro c hc
  have hsize : trailerStart input n ≤ c.data.size := by
    rw [hc, List.size_toArray]
    exact Nat.sub_le ..
  obtain ⟨c', hs, hd, hr⟩ := seek_eq c _ hsize
  rw [hc] at hd hr
  rw [hs]
  exact ⟨hd, hr⟩

theorem triple_readLengths (input : Bytes) (ids : List UInt32) :
    Triple (fun c => c.data = input.toArray) (readLengths input ids)
      (fun lengths c => (lengths = lengthTable input ids.length ∧ Accepted input ids.length) ∧
        c.data = input.toArray)
      (Refusal input ids) := by
  unfold readLengths
  split
  · rename_i stripes hl
    refine .check (fun hlt => .trailerTooLarge hl hlt) fun hle => ?_
    have hcount := stripeCount_of_getLast? hl
    rw [← hcount] at hle ⊢
    have hle := Nat.not_lt.mp hle
    refine triple_seek_trailer.bind fun _ => ?_
    have h := triple_readStripes hle (stripeCount input) 0 #[] (Nat.zero_add _) rfl fitsBefore_zero_zero
    rw [Nat.zero_mul] at h
    refine h.post ?_
    rintro lengths c ⟨⟨ht, hb⟩, hd⟩
    refine ⟨⟨ht, ?_, hle, ?_, hb.dataLength_le⟩, hd⟩
    · rintro rfl
      cases hl
    · exact fun stripe place hs hp => (hb stripe place hp (.inl hs)).isLength
  · rename_i hl
    exact triple_throw (.missingTrailer
      (List.getLast?_eq_none_iff.mp (Option.eq_none_iff_forall_ne_some.mpr hl)))

/-! ## Chunks -/

theorem exists_chunks : ∀ (lengths : List Nat) (b : Bytes), lengths.sum ≤ b.length →
    ∃ (chunks : List Bytes) (behind : Bytes), lengths = chunks.map List.length ∧ b = chunks.flatten ++ behind
  | [], b, _ => ⟨[], b, rfl, rfl⟩
  | length :: lengths, b, h => by
    rw [List.sum_cons] at h
    obtain ⟨chunks, behind, hl, hb⟩ := exists_chunks lengths (b.drop length) (by rw [List.length_drop]; omega)
    refine ⟨b.take length :: chunks, behind, ?_, ?_⟩
    · rw [List.map_cons, List.length_take, Nat.min_eq_left (by omega), hl]
    · rw [List.flatten_cons, List.append_assoc, ← hb, List.take_append_drop]

theorem exists_stripes : ∀ (lengths : List (List Nat)) (b : Bytes), (lengths.map List.sum).sum ≤ b.length →
    ∃ (stripes : List (List Bytes)) (behind : Bytes),
      lengths = stripes.map (List.map List.length) ∧ b = stripes.flatMap List.flatten ++ behind
  | [], b, _ => ⟨[], b, rfl, rfl⟩
  | l :: lengths, b, h => by
    rw [List.map_cons, List.sum_cons] at h
    obtain ⟨chunks, rest, rfl, rfl⟩ := exists_chunks l b (by omega)
    rw [List.length_append, List.length_flatten] at h
    obtain ⟨stripes, behind, rfl, rfl⟩ := exists_stripes lengths rest (by omega)
    exact ⟨chunks :: stripes, behind, rfl, by rw [List.flatMap_cons, List.append_assoc]⟩

theorem chunks_of_readLengths {lengths : List (List Nat)} {c : Cursor}
    (h : readLengths input ids (.ofBytes input) = .ok (lengths, c)) :
    ∃ (stripes : List (List Bytes)) (behind : Bytes), lengths = stripes.map (List.map List.length) ∧
      input = stripes.flatMap List.flatten ++ behind ∧ chunks input ids = .ok stripes := by
  obtain ⟨⟨htable, ha⟩, hd⟩ := (triple_readLengths input ids).of_ok rfl h
  have hsum : (lengths.map List.sum).sum ≤ input.length := by
    rw [htable, sum_lengthTable]
    exact ha.dataLength_le.trans (Nat.sub_le ..)
  obtain ⟨stripes, behind, rfl, hb⟩ := exists_stripes lengths input hsum
  refine ⟨stripes, behind, rfl, hb, ?_⟩
  obtain ⟨c₁, h₁, -, hr₁⟩ := seek_eq c 0 (Nat.zero_le _)
  rw [hd, List.drop_zero] at hr₁
  obtain ⟨c₂, h₂, -, -⟩ := consumes_chunks stripes c₁ behind (hr₁.trans hb)
  unfold chunks
  rw [readChunks_eq]
  show Prod.fst <$> _ = _
  rw [Cursor.bind_of_ok h, Cursor.bind_of_ok h₁, h₂]
  rfl

theorem chunks_of_error {e : Error} (h : readLengths input ids (.ofBytes input) = .error e) :
    chunks input ids = .error e := by
  unfold chunks
  rw [readChunks_eq]
  show Prod.fst <$> _ = _
  rw [Cursor.bind_of_error h]
  rfl

theorem accepted_of_chunks {stripes : List (List Bytes)} (h : chunks input ids = .ok stripes) :
    Accepted input ids.length ∧ stripes.map (List.map List.length) = lengthTable input ids.length ∧
      stripes.flatMap List.flatten = input.take (dataLength input ids.length) := by
  cases hr : readLengths input ids (.ofBytes input) with
  | error e =>
    rw [chunks_of_error hr] at h
    cases h
  | ok p =>
    obtain ⟨⟨htable, ha⟩, -⟩ := (triple_readLengths input ids).of_ok rfl hr
    obtain ⟨stripes', behind, hl, hi, hc⟩ := chunks_of_readLengths hr
    cases hc.symm.trans h
    have hlength : (stripes.flatMap List.flatten).length = dataLength input ids.length := by
      rw [← sum_lengthTable, ← htable, hl, length_flatMap_flatten, List.map_map]
      rfl
    refine ⟨ha, hl.symm.trans htable, ?_⟩
    rw [← hlength]
    conv => rhs; rw [hi]
    rw [List.take_left]

theorem refusal_of_chunks {e : Error} (h : chunks input ids = .error e) : Refusal input ids e := by
  cases hr : readLengths input ids (.ofBytes input) with
  | error e' =>
    rw [chunks_of_error hr] at h
    cases h
    exact (triple_readLengths input ids).of_error rfl hr
  | ok p =>
    obtain ⟨_, _, -, -, hc⟩ := chunks_of_readLengths hr
    rw [hc] at h
    cases h

theorem length_of_chunks {stripes : List (List Bytes)} (h : chunks input ids = .ok stripes) :
    ∀ s ∈ stripes, s.length = ids.length := by
  intro s hs
  have hrow : s.map List.length ∈ lengthTable input ids.length := by
    rw [← (accepted_of_chunks h).2.1]
    exact List.mem_map_of_mem hs
  obtain ⟨stripe, -, hl⟩ := List.mem_map.mp hrow
  rw [← List.length_map List.length, ← hl, List.length_map, List.length_range]

end Js5.Stripes
