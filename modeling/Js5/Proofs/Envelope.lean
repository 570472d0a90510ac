import Js5.Envelope.Writer
import Js5.Proofs.Cursor
import Js5.Proofs.Xtea
import Mathlib.Control.Monad.Basic

/-! # The grammar of envelopes: which bytes open, and what they hold under a key -/

namespace Js5.Envelope

/-! ## Lengths -/

theorem ofNat_lt_zero_iff {n : Nat} (h : n < 2 ^ 32) : Int32.ofNat n < 0 ↔ 2 ^ 31 ≤ n := by
  rw [Int32.lt_iff_toInt_lt, Int32.toInt_ofNat', Int.bmod_def]
  simp only [Int32.toInt_zero, Int32.size]
  split <;> omega

theorem lift_of_ok {α : Type} {read : Cursor.Read α} {c c' : Cursor} {v : α} (h : read c = .ok (v, c')) :
    (liftM read : Read α) c = .ok (v, c') := by
  show (read c).mapError Error.outOfBounds = _
  rw [h]
  rfl

theorem length_of_lt {c : Cursor} {b tail : Bytes} (hb : b.length = 4) (hc : c.rest = b ++ tail)
    (h : Bytes.toNat b < 2 ^ 31) : ∃ c', length c = .ok (Bytes.toNat b, c') ∧ c'.rest = tail := by
  obtain ⟨c', hr, -, ht⟩ := Cursor.consumes_i32 hb c tail hc
  refine ⟨c', ?_, ht⟩
  have hn : ¬ Int32.ofNat (Bytes.toNat b) < 0 := by
    rw [ofNat_lt_zero_iff (by omega)]
    omega
  unfold length
  rw [Cursor.bind_of_ok (lift_of_ok hr), if_neg hn, Int32.toNatClampNeg_ofNat_of_lt h]
  rfl

theorem length_of_le {c : Cursor} {b tail : Bytes} (hb : b.length = 4) (hc : c.rest = b ++ tail)
    (h : 2 ^ 31 ≤ Bytes.toNat b) : length c = .error (.negativeLength (Int32.ofNat (Bytes.toNat b))) := by
  obtain ⟨c', hr, -, ht⟩ := Cursor.consumes_i32 hb c tail hc
  have hlt := Bytes.toNat_lt b
  rw [hb] at hlt
  have hn : Int32.ofNat (Bytes.toNat b) < 0 := (ofNat_lt_zero_iff (by omega)).mpr h
  unfold length
  rw [Cursor.bind_of_ok (lift_of_ok hr), if_pos hn]
  rfl

/-! ## Opening, field by field -/

def versionOf : Bytes → Option UInt16
  | hi :: lo :: _ => some (UInt16.ofNat (Bytes.toNat [hi, lo]))
  | _ => none

def openPlain (compression : Compression) (body : Bytes) : Except Error (Nat × Bytes) :=
  match compression with
  | .none => .ok (body.length, body)
  | _ => (openBody compression).run' (.ofBytes body)

def openBehind (compression : Compression) (len : Nat) (behind : Bytes) (key : Option Xtea.Key) :
    Except Error Envelope :=
  let needed := len + compression.lengthField
  if behind.length < needed then .error (.truncated needed behind.length)
  else (openPlain compression (plain key (behind.take needed))).map fun p =>
    ⟨compression, len, p.1, versionOf (behind.drop needed), p.2⟩

theorem plain_of_unkeyed {key : Option Xtea.Key} (h : key = none ∨ key = some ⟨0, 0, 0, 0⟩) (body : Bytes) :
    plain key body = body := by
  rcases h with rfl | rfl
  · rfl
  · simp only [plain, if_pos (Xtea.Key.isZero_iff.mpr rfl)]

theorem plain_of_key {k : Xtea.Key} (h : k ≠ ⟨0, 0, 0, 0⟩) (body : Bytes) :
    plain (some k) body = Xtea.decipher k body :=
  if_neg fun hk => h (Xtea.Key.isZero_iff.mp hk)

theorem length_plain (key : Option Xtea.Key) (body : Bytes) : (plain key body).length = body.length := by
  cases key with
  | none => rw [plain_of_unkeyed (.inl rfl)]
  | some k =>
    by_cases h : k = ⟨0, 0, 0, 0⟩
    · rw [plain_of_unkeyed (.inr (congrArg some h))]
    · rw [plain_of_key h, Xtea.length_decipher]

theorem decode_short {input : Bytes} (h : input.length < headerSize) (key : Option Xtea.Key) :
    decode input key = .error (.truncated headerSize input.length) := by
  unfold decode read
  rw [if_pos h]
  rfl

theorem exists_head {input : Bytes} (h : headerSize ≤ input.length) :
    ∃ (type : UInt8) (len behind : Bytes), len.length = 4 ∧ input = type :: (len ++ behind) := by
  match input, h with
  | type :: a :: b :: c :: d :: behind, _ => exact ⟨type, [a, b, c, d], behind, rfl, rfl⟩

theorem decode_eq (type : UInt8) {len : Bytes} (hlen : len.length = 4) (behind : Bytes)
    (key : Option Xtea.Key) :
    decode (type :: (len ++ behind)) key =
      match Compression.ofByte? type with
      | none => .error (.unsupportedCompression type)
      | some compression =>
        if 2 ^ 31 ≤ Bytes.toNat len then .error (.negativeLength (Int32.ofNat (Bytes.toNat len)))
        else openBehind compression (Bytes.toNat len) behind key := by
  obtain ⟨c₁, h₁, -, hr₁⟩ := Cursor.consumes_u8 (b := [type]) rfl
    (.ofBytes (type :: (len ++ behind))) _ (Cursor.rest_ofBytes _)
  have hv : UInt8.ofNat (Bytes.toNat [type]) = type := by simp [Bytes.toNat]
  rw [hv] at h₁
  unfold decode
  show Prod.fst <$> read _ key _ = _
  unfold read
  rw [if_neg (by simp [hlen, headerSize])]
  show Prod.fst <$> (liftM Cursor.u8 >>= _ : Read Envelope) _ = _
  rw [Cursor.bind_of_ok (lift_of_ok h₁)]
  cases ht : Compression.ofByte? type with
  | none => rfl
  | some compression =>
    simp only
    rcases Nat.lt_or_ge (Bytes.toNat len) (2 ^ 31) with hl | hl
    · obtain ⟨c₂, h₂, hr₂⟩ := length_of_lt hlen hr₁ hl
      obtain ⟨c₃, h₃⟩ := Cursor.takeRest_eq c₂
      rw [hr₂] at h₃
      rw [if_neg (Nat.not_le.mpr hl), Cursor.bind_of_ok h₂, Cursor.bind_of_ok (lift_of_ok h₃)]
      unfold openBehind
      by_cases hn : behind.length < Bytes.toNat len + compression.lengthField
      · simp only [if_pos hn]
        rfl
      simp only [if_neg hn]
      -- an uncompressed body declares no length; what is recorded is the length of the payload
      cases compression with
      | none =>
        have hb : (plain key (behind.take (Bytes.toNat len + Compression.none.lengthField))).length =
            Bytes.toNat len := by
          rw [length_plain, List.length_take, Nat.min_eq_left (Nat.not_lt.mp hn)]
          rfl
        simp only [openPlain, hb]
        rfl
      | _ =>
        simp only [openPlain]
        cases (openBody _).run' (.ofBytes (plain key (behind.take (Bytes.toNat len + _)))) <;> rfl
    · rw [if_pos hl, Cursor.bind_of_error (length_of_le hlen hr₁ hl)]
      rfl

/-! ## Decompressing -/

/-- The decoder of a compression, asked for one byte more than declared where it can be asked, gives the
data: bzip2 finds BZh1 in front of the payload, lzma is told the declared length. -/
def Decodes : Compression → (payload : Bytes) → (declared : Nat) → (data : Bytes) → Prop
  | .none, _, _, _ => False
  | .bzip2, payload, declared, data =>
    (Bzip2.decode ([0x42, 0x5a, 0x68, 0x31] ++ payload) (request declared)).pull (declared + 1) #[] =
      some data.toArray
  | .gzip, payload, declared, data => (Gzip.decode payload).pull (declared + 1) #[] = some data.toArray
  | .lzma, payload, declared, data => Lzma.decode payload declared = some data.toArray

theorem checkLength_eq_ok_iff {out data : Bytes} {declared : Nat} :
    checkLength out declared = .ok data ↔ out = data ∧ data.length = declared := by
  unfold checkLength
  constructor
  · intro h
    split at h
    · cases h
      exact ⟨rfl, ‹_›⟩
    · cases h
  · rintro ⟨rfl, hl⟩
    exact if_pos hl

theorem readDeclared_eq_ok_iff {d : Delivery Unit} {declared : Nat} {data : Bytes} :
    readDeclared d declared = .ok data ↔
      d.pull (declared + 1) #[] = some data.toArray ∧ data.length = declared := by
  unfold readDeclared
  cases hd : d.pull (declared + 1) #[] with
  | none => simp
  | some out =>
    obtain ⟨out⟩ := out
    simp only [checkLength_eq_ok_iff, Option.some.injEq, Array.mk.injEq]

theorem lzma_size {payload : Bytes} {declared : Nat} {out : Array UInt8}
    (h : Lzma.decode payload declared = some out) : out.size = declared := by
  unfold Lzma.decode at h
  simp only [bind, Option.bind_eq_some_iff] at h
  obtain ⟨p, -, coder, -, ⟨s, c⟩, -, h⟩ := h
  by_cases hs : s.output.size = declared
  · simp only [if_pos hs, Option.some.injEq] at h
    rw [← h, hs]
  · simp [if_neg hs] at h

theorem decompress_eq_ok_iff {c : Compression} (hc : c ≠ .none) {payload : Bytes} {declared : Nat}
    {data : Bytes} :
    decompress c payload declared = .ok data ↔ Decodes c payload declared data ∧ data.length = declared := by
  cases c with
  | none => exact absurd rfl hc
  | bzip2 => exact readDeclared_eq_ok_iff (d := Bzip2.decode (bzip2Header ++ payload) (request declared))
  | gzip => exact readDeclared_eq_ok_iff
  | lzma =>
    unfold decompress Decodes
    cases h : Lzma.decode payload declared with
    | none => simp [h]
    | some out =>
      obtain ⟨out⟩ := out
      simp only [h, checkLength_eq_ok_iff, Option.some.injEq, Array.mk.injEq]

/-- The decoder of lzma has checked the length of its output before it is checked again. -/
theorem decompress_lzma_ne_lengthMismatch {payload : Bytes} {declared expected actual : Nat} :
    decompress .lzma payload declared ≠ .error (.lengthMismatch expected actual) := by
  unfold decompress
  cases h : Lzma.decode payload declared with
  | none => simp
  | some out =>
    have hlen : out.toList.length = declared := (Array.length_toList ..).trans (lzma_size h)
    simp [checkLength, hlen]

theorem openPlain_eq {c : Compression} (hc : c ≠ .none) {n : Bytes} (hn : n.length = 4) (payload : Bytes) :
    openPlain c (n ++ payload) =
      if 2 ^ 31 ≤ Bytes.toNat n then .error (.negativeLength (Int32.ofNat (Bytes.toNat n)))
      else match decompress c payload (Bytes.toNat n) with
        | .ok data => .ok (Bytes.toNat n, data)
        | .error reason => .error (.decompression c reason) := by
  have ho : openPlain c (n ++ payload) = (openBody c).run' (.ofBytes (n ++ payload)) := by
    cases c with
    | none => exact absurd rfl hc
    | _ => rfl
  rw [ho]
  show Prod.fst <$> openBody c _ = _
  unfold openBody
  rcases Nat.lt_or_ge (Bytes.toNat n) (2 ^ 31) with hl | hl
  · obtain ⟨c₁, h₁, hr₁⟩ := length_of_lt hn (Cursor.rest_ofBytes (n ++ payload)) hl
    obtain ⟨c₂, h₂⟩ := Cursor.takeRest_eq c₁
    rw [hr₁] at h₂
    rw [if_neg (Nat.not_le.mpr hl), Cursor.bind_of_ok h₁, Cursor.bind_of_ok (lift_of_ok h₂)]
    cases decompress c payload (Bytes.toNat n) <;> rfl
  · rw [if_pos hl, Cursor.bind_of_error (length_of_le hn (Cursor.rest_ofBytes (n ++ payload)) hl)]
    rfl

theorem openPlain_eq_ok_iff {c : Compression} (hc : c ≠ .none) {body : Bytes} (hb : 4 ≤ body.length)
    {declared : Nat} {data : Bytes} :
    openPlain c body = .ok (declared, data) ↔ ∃ payload, body = Bytes.ofNat 4 declared ++ payload ∧
      declared < 2 ^ 31 ∧ Decodes c payload declared data ∧ data.length = declared := by
  have hn : (body.take 4).length = 4 := by simp [hb]
  constructor
  · intro h
    rw [← List.take_append_drop 4 body, openPlain_eq hc hn] at h
    rcases Nat.lt_or_ge (Bytes.toNat (body.take 4)) (2 ^ 31) with hl | hl
    · rw [if_neg (Nat.not_le.mpr hl)] at h
      cases hd : decompress c (body.drop 4) (Bytes.toNat (body.take 4)) with
      | error reason => rw [hd] at h; cases h
      | ok out =>
        rw [hd] at h
        cases h
        refine ⟨body.drop 4, ?_, hl, (decompress_eq_ok_iff hc).mp hd⟩
        have := Bytes.ofNat_toNat (body.take 4)
        rw [hn] at this
        rw [this, List.take_append_drop]
    · rw [if_pos hl] at h
      cases h
  · intro ⟨payload, he, hl, hd⟩
    have hv : Bytes.toNat (Bytes.ofNat 4 declared) = declared := Bytes.toNat_ofNat_of_lt (by omega)
    rw [he, openPlain_eq hc (Bytes.length_ofNat ..), hv, if_neg (Nat.not_le.mpr hl),
      (decompress_eq_ok_iff hc).mpr hd]

/-! ## The grammar -/

theorem ofByte?_toByte (c : Compression) : Compression.ofByte? c.toByte = some c := by
  cases c <;> rfl

theorem toByte_of_ofByte? {type : UInt8} {c : Compression} (h : Compression.ofByte? type = some c) :
    type = c.toByte := by
  unfold Compression.ofByte? at h
  split at h <;> cases h <;> rfl

theorem openBehind_eq_ok_iff {c : Compression} {len : Nat} {behind : Bytes} {key : Option Xtea.Key}
    {e : Envelope} :
    openBehind c len behind key = .ok e ↔ ∃ body rest, behind = body ++ rest ∧
      body.length = len + c.lengthField ∧ openPlain c (plain key body) = .ok (e.uncompressedLength, e.data) ∧
      e.compression = c ∧ e.compressedLength = len ∧ e.version = versionOf rest := by
  unfold openBehind
  constructor
  · intro h
    by_cases hn : behind.length < len + c.lengthField
    · simp only [if_pos hn] at h
      cases h
    simp only [if_neg hn] at h
    refine ⟨behind.take (len + c.lengthField), behind.drop (len + c.lengthField),
      (List.take_append_drop ..).symm, by rw [List.length_take]; omega, ?_⟩
    cases ho : openPlain c (plain key (behind.take (len + c.lengthField))) with
    | error err => rw [ho] at h; cases h
    | ok p =>
      rw [ho] at h
      cases h
      exact ⟨rfl, rfl, rfl, rfl⟩
  · intro ⟨body, rest, hb, hl, ho, hc, hk, hv⟩
    obtain ⟨c', len', declared, version, data⟩ := e
    simp only at ho hc hk hv
    subst hc hk hv hb
    have ht : (body ++ rest).take (len' + c'.lengthField) = body := by rw [← hl, List.take_left]
    have hd : (body ++ rest).drop (len' + c'.lengthField) = rest := by rw [← hl, List.drop_left]
    have hn : ¬ (body ++ rest).length < len' + c'.lengthField := by rw [List.length_append]; omega
    simp only [if_neg hn, ht, hd, ho]
    rfl

theorem decode_eq_ok_iff {input : Bytes} {key : Option Xtea.Key} {e : Envelope} :
    decode input key = .ok e ↔ ∃ body rest : Bytes,
      input = e.compression.toByte :: (Bytes.ofNat 4 e.compressedLength ++ (body ++ rest)) ∧
      e.compressedLength < 2 ^ 31 ∧ body.length = e.compressedLength + e.compression.lengthField ∧
      openPlain e.compression (plain key body) = .ok (e.uncompressedLength, e.data) ∧
      e.version = versionOf rest := by
  constructor
  · intro h
    rcases Nat.lt_or_ge input.length headerSize with hs | hs
    · rw [decode_short hs] at h
      cases h
    obtain ⟨type, len, behind, hlen, rfl⟩ := exists_head hs
    rw [decode_eq type hlen] at h
    cases ht : Compression.ofByte? type with
    | none => rw [ht] at h; cases h
    | some c =>
      simp only [ht] at h
      rcases Nat.lt_or_ge (Bytes.toNat len) (2 ^ 31) with hn | hn
      · rw [if_neg (Nat.not_le.mpr hn)] at h
        obtain ⟨body, rest, rfl, hl, ho, rfl, hk, hv⟩ := openBehind_eq_ok_iff.mp h
        have hw := Bytes.ofNat_toNat len
        rw [hlen] at hw
        exact ⟨body, rest, by rw [hk, hw, toByte_of_ofByte? ht], hk ▸ hn, hk ▸ hl, ho, hv⟩
      · rw [if_pos hn] at h
        cases h
  · intro ⟨body, rest, hi, hn, hl, ho, hv⟩
    have hw : Bytes.toNat (Bytes.ofNat 4 e.compressedLength) = e.compressedLength :=
      Bytes.toNat_ofNat_of_lt (by omega)
    rw [hi, decode_eq _ (Bytes.length_ofNat ..), ofByte?_toByte]
    simp only [hw]
    rw [if_neg (Nat.not_le.mpr hn)]
    exact openBehind_eq_ok_iff.mpr ⟨body, rest, rfl, hl, ho, rfl, rfl, hv⟩

/-! ## Packed data -/

def Recovers (compress : Compression → Bytes → Bytes) (c : Compression) (data : Bytes) : Prop :=
  decompress c (compress c data) data.length = .ok data

theorem length_plainBody (c : Compression) (payload : Bytes) (declared : Nat) :
    (plainBody c payload declared).length = payload.length + c.lengthField := by
  cases c with
  | none => rfl
  | _ => simp [plainBody, Compression.lengthField, Nat.add_comm]

theorem openPlain_plainBody {c : Compression} {payload data : Bytes} (hd : data.length < 2 ^ 31)
    (h : decompress c payload data.length = .ok data) :
    openPlain c (plainBody c payload data.length) = .ok (data.length, data) := by
  by_cases hc : c = .none
  · subst hc
    obtain ⟨rfl, -⟩ := checkLength_eq_ok_iff.mp h
    rfl
  · have hb : plainBody c payload data.length = Bytes.ofNat 4 data.length ++ payload := by
      cases c with
      | none => exact absurd rfl hc
      | _ => rfl
    obtain ⟨hp, -⟩ := (decompress_eq_ok_iff hc).mp h
    rw [hb, openPlain_eq_ok_iff hc (by simp)]
    exact ⟨payload, rfl, hd, hp, rfl⟩

def enciphered (key : Option Xtea.Key) (body : Bytes) : Bytes :=
  match key with
  | none => body
  | some k => Xtea.encipher k body

theorem write_eq (c : Compression) (payload : Bytes) (declared : Nat) (key : Option Xtea.Key) :
    write c payload declared key =
      c.toByte :: (Bytes.ofNat 4 payload.length ++ enciphered key (plainBody c payload declared)) := by
  cases key <;> rfl

theorem length_enciphered (key : Option Xtea.Key) (body : Bytes) :
    (enciphered key body).length = body.length := by
  unfold enciphered
  cases key <;> simp

theorem plain_enciphered {key : Option Xtea.Key} (hk : ∀ k, key = some k → k.isZero = false) (body : Bytes) :
    plain key (enciphered key body) = body := by
  cases key with
  | none => rfl
  | some k =>
    have hne : k ≠ ⟨0, 0, 0, 0⟩ :=
      fun h => Bool.false_ne_true ((hk k rfl).symm.trans (Xtea.Key.isZero_iff.mpr h))
    exact (plain_of_key hne _).trans (Xtea.decipher_encipher k body)

theorem length_write (c : Compression) (payload : Bytes) (declared : Nat) (key : Option Xtea.Key) :
    (write c payload declared key).length = headerSize + payload.length + c.lengthField := by
  rw [write_eq, List.length_cons, List.length_append, length_enciphered, length_plainBody, Bytes.length_ofNat]
  unfold headerSize
  omega

theorem decode_write {c : Compression} {payload data : Bytes} {key : Option Xtea.Key}
    (hk : ∀ k, key = some k → k.isZero = false) (hp : payload.length < 2 ^ 31) (hd : data.length < 2 ^ 31)
    (h : decompress c payload data.length = .ok data) (trailer : Bytes) :
    decode (write c payload data.length key ++ trailer) key =
      .ok ⟨c, payload.length, data.length, versionOf trailer, data⟩ := by
  refine decode_eq_ok_iff.mpr ⟨enciphered key (plainBody c payload data.length), trailer, ?_, hp, ?_, ?_, rfl⟩
  · rw [write_eq, List.cons_append, List.append_assoc]
  · rw [length_enciphered, length_plainBody]
  · rw [plain_enciphered hk]
    exact openPlain_plainBody hd h

theorem decode_write_none {data : Bytes} (hd : data.length < 2 ^ 31) (trailer : Bytes) :
    decode (write .none data data.length none ++ trailer) none =
      .ok ⟨.none, data.length, data.length, versionOf trailer, data⟩ := by
  apply decode_write ?_ hd hd ?_ trailer
  · intro k hk
    cases hk
  · unfold decompress
    exact if_pos rfl

/-! ## Where an envelope ends -/

theorem packedLength_eq (type : UInt8) {len : Bytes} (hlen : len.length = 4) (behind : Bytes) :
    packedLength (type :: (len ++ behind)) =
      min (headerSize + (Int32.ofNat (Bytes.toNat len)).toNatClampNeg + (if type = 0 then 0 else 4))
        (headerSize + behind.length) := by
  have hv : UInt8.ofNat (Bytes.toNat [type]) = type := by simp [Bytes.toNat]
  have ht : Cursor.Consumes Cursor.u8 [type] type := (Cursor.consumes_u8 rfl).congr hv
  have h : Cursor.Consumes (do return (← Cursor.u8, ← Cursor.i32) : Cursor.Read (UInt8 × Int32))
      ([type] ++ len) (type, Int32.ofNat (Bytes.toNat len)) :=
    ht.bind ((Cursor.consumes_i32 hlen).map fun n => (type, n))
  have hr := h.run' behind
  rw [List.append_assoc] at hr
  have hl : (type :: (len ++ behind)).length = headerSize + behind.length := by
    simp [hlen, headerSize]
    omega
  unfold packedLength
  rw [hl]
  simp only [show type :: (len ++ behind) = [type] ++ (len ++ behind) from rfl, hr]

theorem packedLength_le (input : Bytes) : packedLength input ≤ input.length := by
  unfold packedLength
  split
  · exact Nat.le_refl _
  · exact Nat.min_le_right ..

def front (c : Compression) (len : Nat) (body : Bytes) : Bytes := c.toByte :: (Bytes.ofNat 4 len ++ body)

theorem length_front (c : Compression) (len : Nat) (body : Bytes) :
    (front c len body).length = headerSize + body.length := by
  rw [front, List.length_cons, List.length_append, Bytes.length_ofNat, headerSize]
  omega

theorem front_append (c : Compression) (len : Nat) (body rest : Bytes) :
    front c len body ++ rest = c.toByte :: (Bytes.ofNat 4 len ++ (body ++ rest)) := by
  rw [front, List.cons_append, List.append_assoc]

theorem packedLength_front {c : Compression} {len : Nat} {body : Bytes} (hlen : len < 2 ^ 31)
    (hb : body.length = len + c.lengthField) (rest : Bytes) :
    packedLength (front c len body ++ rest) = (front c len body).length := by
  have hn : Bytes.toNat (Bytes.ofNat 4 len) = len := Bytes.toNat_ofNat_of_lt (by omega)
  have hf : (if c.toByte = 0 then 0 else 4) = c.lengthField := by
    cases c <;> rfl
  rw [length_front, front_append, packedLength_eq _ (Bytes.length_ofNat ..), hn,
    Int32.toNatClampNeg_ofNat_of_lt hlen, hf, List.length_append]
  omega

theorem packedLength_write {c : Compression} {payload : Bytes} (declared : Nat) (key : Option Xtea.Key)
    (hp : payload.length < 2 ^ 31) (trailer : Bytes) :
    packedLength (write c payload declared key ++ trailer) = (write c payload declared key).length := by
  rw [write_eq]
  refine packedLength_front hp ?_ trailer
  rw [length_enciphered, length_plainBody]

/-! ## The whole grammar -/

theorem add_lengthField (c : Compression) (len : Nat) :
    len + c.lengthField = if c = .none then len else len + 4 := by
  cases c <;> rfl

theorem openPlain_plain_eq_ok_iff {c : Compression} {key : Option Xtea.Key} {body data : Bytes}
    {len declared : Nat} (hl : body.length = len + c.lengthField) :
    openPlain c (plain key body) = .ok (declared, data) ↔
      declared = data.length ∧ (c = .none ∧ data = plain key body ∨
        c ≠ .none ∧ ∃ (n : Nat) (payload : Bytes), n < 2 ^ 31 ∧ plain key body = Bytes.ofNat 4 n ++ payload ∧
          Decodes c payload n data ∧ data.length = n) := by
  by_cases hc : c = .none
  · subst hc
    simp only [openPlain, Except.ok.injEq, Prod.mk.injEq]
    constructor
    · rintro ⟨hd, hb⟩
      exact ⟨by rw [← hd, ← hb], .inl ⟨trivial, hb.symm⟩⟩
    · rintro ⟨hd, ⟨-, hb⟩ | ⟨h, -⟩⟩
      · exact ⟨by rw [hd, hb], hb.symm⟩
      · exact absurd rfl h
  · have hb : 4 ≤ (plain key body).length := by
      rw [length_plain, hl, add_lengthField, if_neg hc]
      exact Nat.le_add_left ..
    rw [openPlain_eq_ok_iff hc hb]
    constructor
    · rintro ⟨payload, hp, hn, hd, hlen⟩
      exact ⟨hlen.symm, .inr ⟨hc, declared, payload, hn, hp, hd, hlen⟩⟩
    · rintro ⟨hdecl, ⟨h, -⟩ | ⟨-, n, payload, hn, hp, hd, hlen⟩⟩
      · exact absurd h hc
      · subst hdecl hlen
        exact ⟨payload, hp, hn, hd, rfl⟩

theorem length_data_lt {input : Bytes} {key : Option Xtea.Key} {e : Envelope} (h : decode input key = .ok e) :
    e.compressedLength < 2 ^ 31 ∧ e.data.length < 2 ^ 31 := by
  obtain ⟨body, rest, -, hp, hl, ho, -⟩ := decode_eq_ok_iff.mp h
  refine ⟨hp, ?_⟩
  rcases ((openPlain_plain_eq_ok_iff hl).mp ho).2 with ⟨hc, hd⟩ | ⟨-, n, payload, hn, -, -, hlen⟩
  · rw [hd, length_plain, hl, add_lengthField, if_pos hc]
    exact hp
  · rw [hlen]
    exact hn

/-- **The grammar of envelopes.** An input opens exactly if it is a byte for the compression, a length, a
body of the size that these two ask for, and anything behind it; and if its body in plain text is the data,
or else a declared length and a payload that the decoder turns into that much data. -/
theorem decode_grammar :
    (∀ (input : Bytes) (key : Option Xtea.Key) (e : Envelope), decode input key = .ok e ↔
      ∃ (len : Nat) (body rest : Bytes),
        input = e.compression.toByte :: (Bytes.ofNat 4 len ++ (body ++ rest)) ∧ len < 2 ^ 31 ∧
        body.length = (if e.compression = .none then len else len + 4) ∧
        (e.compression = .none ∧ e.data = plain key body ∨
          e.compression ≠ .none ∧ ∃ (n : Nat) (payload : Bytes), n < 2 ^ 31 ∧
            plain key body = Bytes.ofNat 4 n ++ payload ∧
            Decodes e.compression payload n e.data ∧ e.data.length = n) ∧
        e.compressedLength = len ∧ e.uncompressedLength = e.data.length ∧ e.version = versionOf rest) ∧
    (∀ (compress : Compression → Bytes → Bytes) (c : Compression) (data trailer : Bytes) (k : Xtea.Key),
      k.isZero = false → Recovers compress c data →
        (decode (pack compress c data (some k) ++ trailer) (some k) =
            .ok ⟨c, (compress c data).length, data.length, versionOf trailer, data⟩ ↔
          (compress c data).length < 2 ^ 31 ∧ data.length < 2 ^ 31)) := by
  constructor
  · intro input key e
    rw [decode_eq_ok_iff]
    constructor
    · rintro ⟨body, rest, hi, hn, hl, ho, hv⟩
      obtain ⟨hd, hdata⟩ := (openPlain_plain_eq_ok_iff hl).mp ho
      exact ⟨_, body, rest, hi, hn, hl.trans (add_lengthField ..), hdata, rfl, hd, hv⟩
    · rintro ⟨len, body, rest, hi, hn, hl, hdata, rfl, hd, hv⟩
      have hl := hl.trans (add_lengthField ..).symm
      exact ⟨body, rest, hi, hn, hl, (openPlain_plain_eq_ok_iff hl).mpr ⟨hd, hdata⟩, hv⟩
  · intro compress c data trailer k hk hr
    constructor
    · exact length_data_lt
    · rintro ⟨hp, hd⟩
      refine decode_write ?_ hp hd hr trailer
      intro k' h
      cases h
      exact hk

/-- Gzip of seven bytes, under a key and with a version behind it. -/
theorem decode_grammar_gzip :
    let data : Bytes := [0x4f, 0x70, 0x65, 0x6e, 0x52, 0x53, 0x32]
    let payload : Bytes := [0x1f, 0x8b, 0x08, 0, 0, 0, 0, 0, 0x02, 0xff, 0xf3, 0x2f, 0x48, 0xcd, 0x0b,
      0x0a, 0x36, 0x02, 0x00, 0xeb, 0x0a, 0x5f, 0x98, 0x07, 0, 0, 0]
    let k : Xtea.Key := ⟨0x00112233, 0x44556677, 0x8899aabb, 0xccddeeff⟩
    k.isZero = false ∧ Recovers (fun _ _ => payload) .gzip data ∧
      decode (pack (fun _ _ => payload) .gzip data (some k) ++ [0x12, 0x34]) (some k) =
        .ok ⟨.gzip, 27, 7, some 0x1234, data⟩ := by
  intro data payload k
  have hk : k.isZero = false := by decide
  have hr : Recovers (fun _ _ => payload) .gzip data := by
    show decompress .gzip payload 7 = .ok data
    decide +kernel
  exact ⟨hk, hr, (decode_grammar.2 _ .gzip data [0x12, 0x34] k hk hr).mpr ⟨by decide, by decide⟩⟩

end Js5.Envelope
