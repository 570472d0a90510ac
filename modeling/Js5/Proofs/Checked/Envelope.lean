import Js5.Proofs.Checked.Slices
import Js5.Proofs.Envelope
import Js5.Proofs.Outcome

/-!
# Envelopes stay within their bytes

The lengths in the header are looked at before anything is taken by them, so all of it is there.
-/

namespace Js5

/-! ## The cipher -/

namespace Xtea

def readBlocks (k : Key) (done : Array UInt8) : (blocks : Nat) → Cursor.Read (Array UInt8)
  | 0 => do return done ++ (← Cursor.takeRest)
  | blocks + 1 => do
    let v := decipherBlock k (← Cursor.u32, ← Cursor.u32)
    readBlocks k (done ++ Bytes.ofNat 4 v.1.toNat ++ Bytes.ofNat 4 v.2.toNat) blocks

def blockSize : Nat := 8

def decipher? (k : Key) (b : Bytes) : Except OutOfBounds Bytes :=
  ((readBlocks k #[] (b.length / blockSize)).run' (.ofBytes b)).map Array.toList

theorem mapBlocks_short (f : UInt32 × UInt32 → UInt32 × UInt32) (done : Array UInt8) {b : Bytes}
    (h : b.length < blockSize) : mapBlocks f done b = done ++ b := by
  fun_cases mapBlocks f done b with
  | case1 =>
    simp only [List.length_cons, blockSize] at h
    omega
  | case2 => rfl

theorem exists_block {b : Bytes} (h : blockSize ≤ b.length) : ∃ v₀ v₁ tail : Bytes,
    b = v₀ ++ (v₁ ++ tail) ∧ v₀.length = 4 ∧ v₁.length = 4 ∧
    ∀ (f : UInt32 × UInt32 → UInt32 × UInt32) (done : Array UInt8),
      let v := f (UInt32.ofNat (Bytes.toNat v₀), UInt32.ofNat (Bytes.toNat v₁))
      mapBlocks f done b = mapBlocks f (done ++ Bytes.ofNat 4 v.1.toNat ++ Bytes.ofNat 4 v.2.toNat) tail := by
  match b, h with
  | x₀ :: x₁ :: x₂ :: x₃ :: y₀ :: y₁ :: y₂ :: y₃ :: tail, _ =>
    exact ⟨[x₀, x₁, x₂, x₃], [y₀, y₁, y₂, y₃], tail, rfl, rfl, rfl, fun f done => rfl⟩

theorem readBlocks_eq (k : Key) : ∀ (blocks : Nat) (done : Array UInt8) (c : Cursor),
    blocks = c.rest.length / blockSize →
    ∃ c', readBlocks k done blocks c = .ok (mapBlocks (decipherBlock k) done c.rest, c')
  | 0, done, c, hb => by
    obtain ⟨c', ht⟩ := Cursor.takeRest_eq c
    have hlt : c.rest.length < blockSize := (Nat.div_eq_zero_iff_lt (by decide)).mp hb.symm
    refine ⟨c', ?_⟩
    unfold readBlocks
    rw [Cursor.bind_of_ok ht, mapBlocks_short _ _ hlt]
    rfl
  | blocks + 1, done, c, hb => by
    have hle : blockSize ≤ c.rest.length := by
      unfold blockSize at hb ⊢
      omega
    obtain ⟨v₀, v₁, tail, hr, h₀, h₁, hm⟩ := exists_block hle
    obtain ⟨c₁, hc₁, -, hr₁⟩ := Cursor.consumes_u32 h₀ c _ hr
    obtain ⟨c₂, hc₂, -, hr₂⟩ := Cursor.consumes_u32 h₁ c₁ _ hr₁
    have hblocks : blocks = c₂.rest.length / blockSize := by
      rw [hr, List.length_append, List.length_append, h₀, h₁] at hb
      rw [hr₂]
      unfold blockSize at hb ⊢
      omega
    obtain ⟨c₃, hc₃⟩ := readBlocks_eq k blocks _ c₂ hblocks
    refine ⟨c₃, ?_⟩
    unfold readBlocks
    rw [Cursor.bind_of_ok hc₁, Cursor.bind_of_ok hc₂, hc₃, hr₂, hm]

theorem decipher?_eq (k : Key) (b : Bytes) : decipher? k b = .ok (decipher k b) := by
  obtain ⟨c', h⟩ := readBlocks_eq k (b.length / blockSize) #[] (.ofBytes b)
    (by rw [Cursor.rest_ofBytes])
  unfold decipher?
  show (Prod.fst <$> readBlocks _ _ _ _).map _ = _
  rw [h, Cursor.rest_ofBytes]
  rfl

end Xtea

namespace Envelope

open Cursor (Triple triple_pure triple_throw)

def plain? (key : Option Xtea.Key) (body : Bytes) : Except Error Bytes :=
  match key with
  | none => .ok body
  | some k => if k.isZero then .ok body else (Xtea.decipher? k body).mapError .outOfBounds

def readHead : Read (Compression × Nat) := do
  let type ← Cursor.u8
  let some compression := Compression.ofByte? type | throw (.unsupportedCompression type)
  return (compression, ← length)

def decode? (input : Bytes) (key : Option Xtea.Key) : Checked Error Envelope := do
  if input.length < headerSize then
    throw (.truncated headerSize input.length)
  let ((compression, len), c) ← liftM (readHead (.ofBytes input))
  let needed ← size? (len + compression.lengthField)
  let behind ← input.slice? c.position input.length
  if behind.length < needed then
    throw (.truncated needed behind.length)
  let trailer ← behind.slice? needed behind.length
  let enciphered ← behind.slice? 0 needed
  let (declared, data) ← liftM (plain? key enciphered >>= openPlain compression)
  return ⟨compression, len, declared, versionOf trailer, data⟩

theorem triple_readHead {d : Array UInt8} :
    Triple (fun c => c.data = d) readHead (fun p c => p.2 < 2 ^ 31 ∧ c.data = d) fun _ => True := by
  have hlift : ∀ {α : Type} {read : Cursor.Read α},
      Cursor.Keeps (fun c => c.data = d) read (OutOfBounds.IsShortage d.size) →
      Cursor.Keeps (fun c => c.data = d) (liftM read : Read α) fun _ => True :=
    fun h => h.mapError fun _ _ => trivial
  have hlength : Triple (fun c => c.data = d) length (fun n c => n < 2 ^ 31 ∧ c.data = d) fun _ => True := by
    refine Triple.bind (hlift Cursor.keeps_i32) fun n => .check (fun _ => trivial) fun _ => ?_
    refine triple_pure fun c hc => ⟨?_, hc⟩
    have := n.toInt_lt
    show n.toInt.toNat < 2 ^ 31
    omega
  refine Triple.bind (hlift Cursor.keeps_u8) fun type => ?_
  split
  · exact hlength.bind fun n => .assume fun hn => triple_pure fun c hc => ⟨hn, hc⟩
  · exact triple_throw trivial

theorem plain?_eq (key : Option Xtea.Key) (body : Bytes) : plain? key body = .ok (plain key body) := by
  unfold plain? plain
  cases key with
  | none => rfl
  | some k =>
    simp only [Xtea.decipher?_eq]
    split <;> rfl

theorem decode_eq_readHead {input : Bytes} (h : headerSize ≤ input.length) (key : Option Xtea.Key) :
    decode input key = (readHead (.ofBytes input) >>= fun p => openBehind p.1.1 p.1.2 p.2.rest key) := by
  obtain ⟨type, len, behind, hlen, rfl⟩ := exists_head h
  obtain ⟨c₁, h₁, -, hr₁⟩ := Cursor.consumes_u8 (b := [type]) rfl (.ofBytes (type :: (len ++ behind))) _
    (Cursor.rest_ofBytes _)
  have hv : UInt8.ofNat (Bytes.toNat [type]) = type := by simp [Bytes.toNat]
  rw [hv] at h₁
  rw [decode_eq type hlen behind key]
  unfold readHead
  rw [Cursor.bind_of_ok (lift_of_ok h₁)]
  cases Compression.ofByte? type with
  | none => rfl
  | some compression =>
    simp only
    rcases Nat.lt_or_ge (Bytes.toNat len) (2 ^ 31) with hl | hl
    · obtain ⟨c₂, h₂, hr₂⟩ := length_of_lt hlen hr₁ hl
      rw [if_neg (Nat.not_le.mpr hl), Cursor.bind_of_ok h₂, ← hr₂]
      rfl
    · rw [if_pos hl, Cursor.bind_of_error (length_of_le hlen hr₁ hl)]
      rfl

theorem decode?_eq (input : Bytes) (key : Option Xtea.Key) :
    (decode? input key).run = some (decode input key) := by
  unfold decode?
  by_cases hs : input.length < headerSize
  · rw [if_pos hs, decode_short hs]
    rfl
  · rw [if_neg hs, decode_eq_readHead (Nat.not_lt.mp hs)]
    refine Checked.bind_of rfl fun p hp => ?_
    obtain ⟨⟨compression, len⟩, c⟩ := p
    obtain ⟨hl, hd⟩ := (triple_readHead (d := input.toArray)).of_ok rfl hp
    have hn : len + compression.lengthField < UInt64.size := by
      change len < 2 ^ 31 at hl
      rw [add_lengthField]
      unfold UInt64.size
      split <;> omega
    have hle : c.position ≤ input.length := by
      have := c.position_le
      rwa [hd, List.size_toArray] at this
    have hrest : input.drop c.position = c.rest := by
      unfold Cursor.rest
      rw [hd]
    simp only
    rw [Checked.bind_some (size?_of_lt hn), Checked.bind_some (Bytes.slice?_length hle), hrest]
    unfold openBehind
    simp only
    refine Checked.check fun hlt => ?_
    have hbody := Nat.not_lt.mp hlt
    rw [Checked.bind_some (Bytes.slice?_length hbody), Checked.bind_some (Bytes.slice?_zero hbody),
      plain?_eq]
    show ((liftM (openPlain compression (plain key _)) : Checked Error (Nat × Bytes)) >>= _).run = _
    cases openPlain compression (plain key (c.rest.take (len + compression.lengthField))) <;> rfl

/-! ## Errors -/

theorem openPlain_ne_outOfBounds {c : Compression} {body : Bytes} (h : c.lengthField ≤ body.length)
    (e : OutOfBounds) :
    openPlain c body ≠ .error (.outOfBounds e) := by
  intro he
  by_cases hc : c = .none
  · rw [hc] at he
    cases he
  · have hn : (body.take 4).length = 4 := by
      have := add_lengthField c 0
      rw [if_neg hc] at this
      rw [List.length_take]
      omega
    rw [← List.take_append_drop 4 body, openPlain_eq hc hn] at he
    split at he
    · cases he
    · cases hd : decompress c (body.drop 4) (Bytes.toNat (body.take 4)) with
      | ok data => rw [hd] at he; cases he
      | error reason => rw [hd] at he; cases he

/-- The header is there, and a body with a length field is long enough for it in plain text too. -/
theorem decode_ne_outOfBounds (input : Bytes) (key : Option Xtea.Key) (e : OutOfBounds) :
    decode input key ≠ .error (.outOfBounds e) := by
  intro he
  rcases Nat.lt_or_ge input.length headerSize with hs | hs
  · rw [decode_short hs] at he
    cases he
  · obtain ⟨type, len, behind, hlen, rfl⟩ := exists_head hs
    rw [decode_eq type hlen] at he
    cases ht : Compression.ofByte? type with
    | none => rw [ht] at he; cases he
    | some c =>
      rw [ht] at he
      simp only at he
      split at he
      · cases he
      · unfold openBehind at he
        simp only at he
        split at he
        · cases he
        · rename_i hle
          refine openPlain_ne_outOfBounds ?_ e (map_eq_error he)
          rw [length_plain, List.length_take, Nat.min_eq_left (Nat.not_lt.mp hle)]
          exact Nat.le_add_left ..

end Envelope

end Js5
