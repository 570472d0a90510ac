import Js5.Proofs.Cursor
import Js5.Stripes.Writer

/-! # Reading the trailer of a striped group gives the lengths of its chunks -/

namespace Js5.Stripes

open Cursor (Consumes)

theorem consumes_lift {α : Type} {read : Cursor.Read α} {b : Bytes} {v : α} (h : Consumes read b v) :
    Consumes (liftM read : Read α) b v :=
  h.mapError Error.outOfBounds

/-! ## The trailer -/

def total (stripe : List Bytes) : Nat := (stripe.map List.length).sum

@[simp] theorem total_nil : total [] = 0 := rfl

@[simp] theorem total_cons (chunk : Bytes) (stripe : List Bytes) :
    total (chunk :: stripe) = chunk.length + total stripe := by
  simp [total]

@[simp] theorem length_writeLengths (last : Nat) (stripe : List Bytes) :
    (writeLengths last stripe).length = 4 * stripe.length := by
  induction stripe generalizing last with
  | nil => rfl
  | cons chunk stripe ih => simp [writeLengths, ih, Nat.mul_succ, Nat.add_comm]

variable (limit : Nat)

theorem consumes_readStripe (stripe : Nat) : ∀ (ids : List UInt32) (chunks : List Bytes) (last stop : Nat)
    (done : Array Nat), chunks.length = ids.length → last < 2 ^ 31 → (∀ c ∈ chunks, c.length < 2 ^ 31) →
    stop + total chunks ≤ limit →
    Consumes (readStripe limit stripe last stop done ids) (writeLengths last chunks)
      (done ++ (chunks.map List.length).toArray, stop + total chunks)
  | [], [], _, stop, done, _, _, _, _ => by
    simpa [readStripe, writeLengths] using Cursor.consumes_pure (done, stop)
  | id :: ids, chunk :: chunks, last, stop, done, hl, hlast, hc, ht => by
    intro c tail hr
    have hchunk := hc chunk (List.mem_cons_self ..)
    rw [total_cons] at ht
    rw [writeLengths, List.append_assoc] at hr
    obtain ⟨c₁, h₁, hd₁, hr₁⟩ :=
      consumes_lift (Cursor.consumes_i32_ofNat (.ofInt (chunk.length - last))) c _ hr
    have hint : (last : Int) + (Int32.ofInt (chunk.length - last)).toInt = chunk.length := by
      rw [Int32.toInt_ofInt_of_le (by omega) (by omega)]
      omega
    have hok : ¬ ((chunk.length : Int) < 0 || lengthBound ≤ (chunk.length : Int)) = true := by
      simp only [Bool.or_eq_true, decide_eq_true_eq]
      unfold lengthBound
      omega
    obtain ⟨c₂, h₂, hd₂, hr₂⟩ := consumes_readStripe stripe ids chunks chunk.length (stop + chunk.length)
      (done.push chunk.length) (Nat.succ.inj hl) hchunk (fun c h => hc c (List.mem_cons_of_mem _ h))
        (by omega) c₁ tail hr₁
    refine ⟨c₂, ?_, hd₂.trans hd₁, hr₂⟩
    unfold readStripe
    rw [Cursor.bind_of_ok h₁]
    simp only [hint, if_neg hok, Int.toNat_natCast,
      if_neg (Nat.not_lt.mpr (by omega : stop + chunk.length ≤ limit))]
    refine h₂.trans ?_
    simp [Nat.add_assoc]

theorem consumes_readStripes (ids : List UInt32) : ∀ (stripes : List (List Bytes)) (stripe stop : Nat)
    (done : Array (List Nat)), (∀ s ∈ stripes, s.length = ids.length ∧ ∀ c ∈ s, c.length < 2 ^ 31) →
    stop + (stripes.map total).sum ≤ limit →
    Consumes (readStripes limit ids stripe stop done stripes.length) (stripes.flatMap (writeLengths 0))
      (done.toList ++ stripes.map (List.map List.length))
  | [], _, _, done, _, _ => by
    simpa [readStripes] using Cursor.consumes_pure done.toList
  | s :: stripes, stripe, stop, done, h, ht => by
    have hs := h s (List.mem_cons_self ..)
    rw [List.map_cons, List.sum_cons] at ht
    have h₁ := consumes_readStripe limit stripe ids s 0 stop #[] hs.1 (by decide) hs.2 (by omega)
    have h₂ := consumes_readStripes ids stripes (stripe + 1) (stop + total s)
      (done.push (s.map List.length)) (fun s h' => h s (List.mem_cons_of_mem _ h')) (by omega)
    rw [List.flatMap_cons]
    unfold readStripes
    apply h₁.bind
    simpa using h₂

/-! ## Chunks -/

theorem consumes_chunk (chunk : Bytes) :
    Consumes (liftM (Cursor.take chunk.length) : Read Bytes) chunk chunk :=
  consumes_lift (Cursor.consumes_take chunk)

theorem consumes_chunks (stripes : List (List Bytes)) :
    Consumes ((stripes.map (List.map List.length)).mapM fun stripe =>
        stripe.mapM fun length => (liftM (Cursor.take length) : Read Bytes))
      (stripes.flatMap List.flatten) stripes := by
  have h : ∀ stripe ∈ stripes, Consumes ((stripe.map List.length).mapM fun length =>
      (liftM (Cursor.take length) : Read Bytes)) stripe.flatten stripe := by
    intro stripe _
    have := Consumes.mapM stripe fun chunk _ => consumes_chunk chunk
    rw [List.mapM_map]
    simpa [Function.comp_def] using this
  rw [List.mapM_map]
  simpa [Function.comp_def] using Consumes.mapM stripes h

theorem length_flatMap_flatten (stripes : List (List Bytes)) :
    (stripes.flatMap List.flatten).length = (stripes.map total).sum := by
  simp only [List.length_flatMap, List.length_flatten]
  rfl

theorem length_flatMap_writeLengths {n : Nat} (stripes : List (List Bytes))
    (h : ∀ s ∈ stripes, s.length = n) :
    (stripes.flatMap (writeLengths 0)).length = stripes.length * n * 4 := by
  induction stripes with
  | nil => simp
  | cons s stripes ih =>
    have hs := h s (List.mem_cons_self ..)
    have ih := ih fun s' h' => h s' (List.mem_cons_of_mem s h')
    rw [List.flatMap_cons, List.length_append, length_writeLengths, ih, hs, List.length_cons,
      Nat.succ_mul, Nat.add_mul]
    omega

theorem seek_eq (c : Cursor) (position : Nat) (h : position ≤ c.data.size) :
    ∃ c', (liftM (Cursor.seek position) : Read Unit) c = .ok ((), c') ∧ c'.data = c.data ∧
      c'.rest = c.data.toList.drop position := by
  refine ⟨⟨c.data, position, h⟩, ?_, rfl, rfl⟩
  show (Cursor.seek position c).mapError _ = _
  unfold Cursor.seek
  rw [dif_pos h]
  rfl

/-- **The chunks of a group.** A group laid out in stripes comes apart into the chunks that it was made of,
whatever bytes there are in front of the trailer. -/
theorem chunks_join {ids : List UInt32} {stripes : List (List Bytes)} (unused : Bytes)
    (hn : stripes.length < 256) (h : ∀ s ∈ stripes, s.length = ids.length ∧ ∀ c ∈ s, c.length < 2 ^ 31) :
    chunks (join stripes unused) ids = .ok stripes := by
  have hlengths := length_flatMap_writeLengths stripes fun s hs => (h s hs).1
  have htotal := length_flatMap_flatten stripes
  have hbytes := consumes_chunks stripes
  have htrailer := fun limit => consumes_readStripes limit ids stripes 0 0 #[] h
  let data := stripes.flatMap List.flatten
  let lengths := stripes.flatMap (writeLengths 0)
  have hinput : join stripes unused = data ++ unused ++ (lengths ++ [UInt8.ofNat stripes.length]) :=
    List.append_assoc ..
  have hcount : (UInt8.ofNat stripes.length).toNat = stripes.length := UInt8.toNat_ofNat_of_lt' hn
  have hsize : trailerSize stripes.length ids.length = lengths.length + 1 := congrArg (· + 1) hlengths.symm
  have hlimit :
      (join stripes unused).length - trailerSize stripes.length ids.length = (data ++ unused).length := by
    rw [hinput, hsize]
    simp
    omega
  obtain ⟨c₁, h₁, hd₁, hr₁⟩ := seek_eq (.ofBytes (join stripes unused)) (data ++ unused).length
    (by simp [Cursor.ofBytes, hinput])
  have hr₁ : c₁.rest = lengths ++ [UInt8.ofNat stripes.length] := by
    rw [hr₁]
    simp [Cursor.ofBytes, hinput]
  obtain ⟨c₂, h₂, hd₂, -⟩ := htrailer (data ++ unused).length (by simp [data, htotal]) c₁ _ hr₁
  obtain ⟨c₃, h₃, -, hr₃⟩ := seek_eq c₂ 0 (Nat.zero_le _)
  have hr₃ : c₃.rest = data ++ (unused ++ (lengths ++ [UInt8.ofNat stripes.length])) := by
    rw [hr₃, hd₂, hd₁]
    simp [Cursor.ofBytes, hinput]
  obtain ⟨c₄, h₄, -, -⟩ := hbytes c₃ _ hr₃
  have hlast : (join stripes unused).getLast? = some (UInt8.ofNat stripes.length) := by
    rw [hinput]
    simp
  show Prod.fst <$> readChunks _ _ _ = _
  unfold readChunks
  simp only [hlast, hcount, hlimit]
  rw [if_neg (by rw [hinput, hsize]; simp; omega), Cursor.bind_of_ok h₁, Cursor.bind_of_ok h₂,
    Cursor.bind_of_ok h₃]
  simp only [List.nil_append] at h₄ ⊢
  rw [h₄]
  rfl

/-! ## Files -/

theorem split_of_le {input : Bytes} {ids : List UInt32} (h : 2 ≤ ids.length) :
    split input ids = (chunks input ids).map fun stripes =>
      ids.zip (stripes.foldr (List.zipWith (· ++ ·)) (List.replicate ids.length [])) := by
  match ids, h with
  | a :: b :: ids, _ =>
    show (chunks input (a :: b :: ids) >>= fun stripes => pure _) = _
    cases chunks input (a :: b :: ids) <;> rfl

theorem file_of_le {input : Bytes} {ids : List UInt32} (h : 2 ≤ ids.length) {id : UInt32} {place : Nat}
    (hp : ids.idxOf? id = some place) :
    file input ids id = (chunks input ids).map fun stripes => stripes.flatMap (·.getD place []) := by
  match ids, h with
  | a :: b :: ids, _ =>
    unfold file
    simp only [hp]
    cases chunks input (a :: b :: ids) <;> rfl

theorem file_of_notMem {input : Bytes} {ids : List UInt32} (h : 2 ≤ ids.length) {id : UInt32}
    (hid : id ∉ ids) :
    file input ids id = .error (.fileOutOfRange id ids.length) := by
  match ids, h with
  | a :: b :: ids, _ =>
    unfold file
    simp only [List.idxOf?_eq_none_iff.mpr hid]

end Js5.Stripes
