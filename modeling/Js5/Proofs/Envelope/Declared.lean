import Js5.Proofs.Codec.Delivery
import Js5.Proofs.Envelope
import Js5.Proofs.Outcome

/-!
# Declared lengths

A payload that comes to an end is the data under the length that it has and under no other; what is wrong
behind the byte too many is never seen.
-/

namespace Js5.Envelope

/-! ## Reading from a stream -/

theorem readDeclared_eq (d : Delivery Unit) (declared : Nat) : readDeclared d declared =
    if declared < d.bytes.length then .error (.lengthMismatch declared (declared + 1))
    else if d.result? = none then .error .codec
    else if d.bytes.length = declared then .ok d.bytes
    else .error (.lengthMismatch declared d.bytes.length) := by
  unfold readDeclared
  rw [Delivery.pull_succ]
  by_cases hlong : declared < d.bytes.length
  · have hsize : (d.bytes.take (declared + 1)).length = declared + 1 := by
      rw [List.length_take]
      omega
    simp only [if_pos hlong, checkLength, hsize]
    exact if_neg (Nat.succ_ne_self declared)
  · simp only [if_neg hlong]
    cases d.result? with
    | none => rfl
    | some _ => rfl

theorem readDeclared_lengthMismatch {d : Delivery Unit} {declared expected actual : Nat}
    (h : readDeclared d declared = .error (.lengthMismatch expected actual)) :
    expected = declared ∧ actual ≤ expected + 1 ∧ actual ≠ expected := by
  rw [readDeclared_eq] at h
  split at h
  · cases h
    exact ⟨rfl, Nat.le_refl _, Nat.succ_ne_self _⟩
  · split at h
    · cases h
    · split at h
      · cases h
      · cases h
        rename_i hshort _ hne
        exact ⟨rfl, Nat.le_succ_of_le (Nat.le_of_not_lt hshort), hne⟩

theorem readDeclared_ok {d : Delivery Unit} {declared : Nat} {data : Bytes}
    (h : readDeclared d declared = .ok data) :
    d.result? ≠ none ∧ d.bytes = data ∧ data.length = declared := by
  rw [readDeclared_eq] at h
  split at h
  · cases h
  · split at h
    · cases h
    · split at h
      · cases h
        exact ⟨‹_›, rfl, ‹_›⟩
      · cases h

theorem readDeclared_of_ne {d : Delivery Unit} {declared : Nat} (h : d.result? ≠ none)
    (hne : declared ≠ d.bytes.length) :
    readDeclared d declared = .error (.lengthMismatch declared (min d.bytes.length (declared + 1))) := by
  rw [readDeclared_eq, if_neg h, if_neg (Ne.symm hne)]
  by_cases hlong : declared < d.bytes.length
  · rw [if_pos hlong, Nat.min_eq_right hlong]
  · rw [if_neg hlong, Nat.min_eq_left (by omega)]

/-- A stream without a header halts before anything is asked for. -/
theorem bzip2_eq_deliver (input : Bytes) : ∃ (course : Course Unit) (supply : Supply), ∀ ask,
    Bzip2.decode input ask = course.deliver supply ask .first := by
  unfold Bzip2.decode
  cases Bzip2.header.run (.ofBytes input) with
  | error => exact ⟨.halted 0, ⟨0, 0⟩, fun _ => rfl⟩
  | ok => exact ⟨_, _, fun _ => rfl⟩

/-- The compressions whose decoders are streams: what is handed on of a payload under a declared length. -/
inductive Streams : Compression → (Bytes → Nat → Delivery Unit) → Prop
  | bzip2 : Streams .bzip2 fun payload declared =>
      Bzip2.decode ([0x42, 0x5a, 0x68, 0x31] ++ payload) (request declared)
  | gzip : Streams .gzip fun payload _ => Gzip.decode payload

namespace Streams

variable {c : Compression} {stream : Bytes → Nat → Delivery Unit}

theorem ne_none (h : Streams c stream) : c ≠ .none := by
  cases h with
  | bzip2 => decide
  | gzip => decide

theorem decompress_eq (h : Streams c stream) (payload : Bytes) (declared : Nat) :
    decompress c payload declared = readDeclared (stream payload declared) declared := by
  cases h with
  | bzip2 => rfl
  | gzip => rfl

/-- Whatever is asked for, the stream comes to its end or not; if it does, it is the same, and if not, it is
broken off somewhere. -/
theorem exists_whole (h : Streams c stream) (payload : Bytes) : ∃ whole result, ∀ declared,
    (stream payload declared).result? = result ∧ (stream payload declared).bytes <+: whole ∧
      (result ≠ none → (stream payload declared).bytes = whole) := by
  cases h with
  | bzip2 =>
    obtain ⟨course, supply, h⟩ := bzip2_eq_deliver ([0x42, 0x5a, 0x68, 0x31] ++ payload)
    refine ⟨course.bytes, course.result?, fun declared => ?_⟩
    dsimp only
    rw [h]
    exact ⟨Course.result?_deliver _ _ course .first, Course.bytes_deliver _ _ course .first⟩
  | gzip => exact ⟨_, _, fun _ => ⟨rfl, List.prefix_rfl, fun _ => rfl⟩⟩

theorem steady (h : Streams c stream) {payload : Bytes} {declared : Nat}
    (hr : (stream payload declared).result? ≠ none) (declared' : Nat) :
    (stream payload declared').result? ≠ none ∧
      (stream payload declared').bytes = (stream payload declared).bytes := by
  obtain ⟨whole, result, hw⟩ := h.exists_whole payload
  rw [(hw declared).1] at hr
  rw [(hw declared').1, (hw declared').2.2 hr, (hw declared).2.2 hr]
  exact ⟨hr, rfl⟩

end Streams

/-! ## Envelopes with a declared length -/

/-- The input is an envelope whose body in plain text declares a length and has the payload behind it. -/
def Holds (input : Bytes) (key : Option Xtea.Key) (c : Compression) (declared : Nat) (payload : Bytes) :
    Prop :=
  ∃ len body rest, input = front c len body ++ rest ∧ len < 2 ^ 31 ∧ body.length = len + c.lengthField ∧
    declared < 2 ^ 31 ∧ plain key body = Bytes.ofNat 4 declared ++ payload

variable {input : Bytes} {key : Option Xtea.Key} {c : Compression} {declared : Nat} {payload : Bytes}

theorem Holds.decode_eq (hc : c ≠ .none) (h : Holds input key c declared payload) :
    (decode input key).map Envelope.data = (decompress c payload declared).mapError (.decompression c) := by
  obtain ⟨len, body, rest, rfl, hlen, hl, hd, hp⟩ := h
  have hn : Bytes.toNat (Bytes.ofNat 4 len) = len := Bytes.toNat_ofNat_of_lt (by omega)
  have hdn : Bytes.toNat (Bytes.ofNat 4 declared) = declared := Bytes.toNat_ofNat_of_lt (by omega)
  have hlong : ¬ (body ++ rest).length < len + c.lengthField := by
    rw [List.length_append]
    omega
  rw [front_append, Envelope.decode_eq _ (Bytes.length_ofNat ..), ofByte?_toByte]
  simp only [hn]
  rw [if_neg (Nat.not_le.mpr hlen), openBehind, if_neg hlong, List.take_left' hl, hp,
    openPlain_eq hc (Bytes.length_ofNat ..), hdn, if_neg (Nat.not_le.mpr hd)]
  cases decompress c payload declared with
  | ok data => rfl
  | error reason => rfl

theorem exists_holds_of_ok {e : Envelope} (h : decode input key = .ok e) (hc : e.compression ≠ .none) :
    ∃ payload, Holds input key e.compression e.data.length payload := by
  obtain ⟨body, rest, hi, hlen, hl, ho, -⟩ := decode_eq_ok_iff.mp h
  obtain ⟨-, ⟨hnone, -⟩ | ⟨-, n, payload, hn, hp, -, hdata⟩⟩ := (openPlain_plain_eq_ok_iff hl).mp ho
  · exact absurd hnone hc
  · subst hdata
    exact ⟨payload, _, body, rest, by rw [hi, front_append], hlen, hl, hn, hp⟩

theorem exists_declared_of_error {c' : Compression} {body : Bytes} {reason : DecompressionFailure}
    (hb : c'.lengthField ≤ body.length) (h : openPlain c' body = .error (.decompression c reason)) : c' = c ∧
      ∃ declared payload, declared < 2 ^ 31 ∧ body = Bytes.ofNat 4 declared ++ payload ∧
        decompress c payload declared = .error reason := by
  by_cases hc : c' = .none
  · subst hc
    cases h
  · have hlen : (body.take 4).length = 4 := by
      have hfield := add_lengthField c' 0
      rw [if_neg hc] at hfield
      rw [List.length_take]
      omega
    have hword := Bytes.ofNat_toNat (body.take 4)
    rw [hlen] at hword
    rw [← List.take_append_drop 4 body, openPlain_eq hc hlen] at h
    split at h
    · cases h
    · cases hd : decompress c' (body.drop 4) (Bytes.toNat (body.take 4)) with
      | ok data =>
        rw [hd] at h
        cases h
      | error reason' =>
        rw [hd] at h
        cases h
        exact ⟨rfl, _, _, Nat.lt_of_not_le ‹_›, by rw [hword, List.take_append_drop], hd⟩

theorem exists_holds_of_error {reason : DecompressionFailure}
    (h : decode input key = .error (.decompression c reason)) :
    ∃ declared payload, Holds input key c declared payload ∧
      decompress c payload declared = .error reason := by
  rcases Nat.lt_or_ge input.length headerSize with hs | hs
  · rw [decode_short hs] at h
    cases h
  obtain ⟨type, len, behind, hlen, rfl⟩ := exists_head hs
  rw [decode_eq type hlen] at h
  cases ht : Compression.ofByte? type with
  | none =>
    rw [ht] at h
    cases h
  | some c' =>
    simp only [ht] at h
    split at h
    · cases h
    · rename_i hlt
      unfold openBehind at h
      by_cases hn : behind.length < Bytes.toNat len + c'.lengthField
      · simp only [if_pos hn] at h
        cases h
      simp only [if_neg hn] at h
      have hbody :
          (behind.take (Bytes.toNat len + c'.lengthField)).length = Bytes.toNat len + c'.lengthField := by
        rw [List.length_take]
        omega
      obtain ⟨rfl, declared, payload, hd, hp, hreason⟩ := exists_declared_of_error
        (by rw [length_plain, hbody]; exact Nat.le_add_left ..) (map_eq_error h)
      have hword := Bytes.ofNat_toNat len
      rw [hlen] at hword
      refine ⟨declared, payload, ⟨Bytes.toNat len, _, behind.drop (Bytes.toNat len + c'.lengthField), ?_,
        Nat.lt_of_not_le hlt, hbody, hd, hp⟩, hreason⟩
      rw [front_append, hword, List.take_append_drop, toByte_of_ofByte? ht]

theorem Holds.decode_error {reason : DecompressionFailure} (hc : c ≠ .none)
    (h : Holds input key c declared payload) (hd : decompress c payload declared = .error reason) :
    decode input key = .error (.decompression c reason) := by
  refine map_eq_error (f := Envelope.data) ?_
  rw [h.decode_eq hc, hd]
  rfl

theorem Holds.decompress_ok {e : Envelope} (hc : c ≠ .none) (h : Holds input key c declared payload)
    (he : decode input key = .ok e) : decompress c payload declared = .ok e.data := by
  have hd := h.decode_eq hc
  rw [he] at hd
  exact mapError_eq_ok hd.symm

theorem holds_write (hk : ∀ k, key = some k → k.isZero = false) (hc : c ≠ .none)
    (hp : payload.length < 2 ^ 31) (hd : declared < 2 ^ 31) :
    Holds (write c payload declared key) key c declared payload := by
  refine ⟨payload.length, enciphered key (plainBody c payload declared), [], ?_, hp, ?_, hd, ?_⟩
  · rw [write_eq, List.append_nil]
    rfl
  · rw [length_enciphered, length_plainBody]
  · rw [plain_enciphered hk]
    cases c with
    | none => exact absurd rfl hc
    | _ => rfl

/-- **A stream has one length.** A payload that opens does so under the length of its data alone. Under any
other the mismatch is reported, also where the stream is broken behind the byte too many; what is broken
before it is an error of the decoder. -/
theorem decode_under_one_length {stream : Bytes → Nat → Delivery Unit} (h : Streams c stream) :
    (∀ payload, ∃ whole result, ∀ declared, (stream payload declared).result? = result ∧
      (stream payload declared).bytes <+: whole ∧ (result ≠ none → (stream payload declared).bytes = whole)) ∧
    (∀ input key e, decode input key = .ok e → e.compression = c →
      ∃ payload, Holds input key c e.data.length payload) ∧
    (∀ input key declared payload e, Holds input key c declared payload → decode input key = .ok e →
      e.data.length = declared ∧
      ∀ input' key' declared', Holds input' key' c declared' payload → declared' ≠ declared →
        decode input' key' = .error
          (.decompression c (.lengthMismatch declared' (min declared (declared' + 1))))) ∧
    (∀ input key expected actual,
      decode input key = .error (.decompression c (.lengthMismatch expected actual)) →
      (∃ payload, Holds input key c expected payload) ∧ actual ≤ expected + 1 ∧ actual ≠ expected) ∧
    ∀ input key declared payload, Holds input key c declared payload →
      (declared + 1 ≤ (stream payload declared).bytes.length →
        decode input key = .error (.decompression c (.lengthMismatch declared (declared + 1)))) ∧
      ((stream payload declared).bytes.length ≤ declared → (stream payload declared).result? = none →
        decode input key = .error (.decompression c .codec)) := by
  have hc := h.ne_none
  refine ⟨h.exists_whole, fun input key e he hec => ?_, fun input key declared payload e hh he => ?_,
    fun input key expected actual he => ?_,
    fun input key declared payload hh => ⟨fun hlong => ?_, fun hshort hr => ?_⟩⟩
  · subst hec
    exact exists_holds_of_ok he hc
  · have hok := hh.decompress_ok hc he
    rw [h.decompress_eq] at hok
    obtain ⟨hr, hb, hl⟩ := readDeclared_ok hok
    refine ⟨hl, fun input' key' declared' hh' hne => hh'.decode_error hc ?_⟩
    obtain ⟨hr', hb'⟩ := h.steady hr declared'
    have hlen : (stream payload declared').bytes.length = declared := by rw [hb', hb, hl]
    rw [h.decompress_eq, readDeclared_of_ne hr' (by rwa [hlen]), hlen]
  · obtain ⟨declared, payload, hh, hd⟩ := exists_holds_of_error he
    rw [h.decompress_eq] at hd
    obtain ⟨rfl, hle, hne⟩ := readDeclared_lengthMismatch hd
    exact ⟨⟨payload, hh⟩, hle, hne⟩
  · refine hh.decode_error hc ?_
    rw [h.decompress_eq, readDeclared_eq, if_pos (Nat.lt_of_succ_le hlong)]
  · refine hh.decode_error hc ?_
    rw [h.decompress_eq, readDeclared_eq, if_neg (Nat.not_lt.mpr hshort), if_pos hr]

/-- Seven bytes that are said to be three, or nine. -/
theorem decode_under_one_length_gzip :
    let data : Bytes := [0x4f, 0x70, 0x65, 0x6e, 0x52, 0x53, 0x32]
    let payload : Bytes := [0x1f, 0x8b, 0x08, 0, 0, 0, 0, 0, 0x02, 0xff, 0xf3, 0x2f, 0x48, 0xcd, 0x0b,
      0x0a, 0x36, 0x02, 0x00, 0xeb, 0x0a, 0x5f, 0x98, 0x07, 0, 0, 0]
    decode (write .gzip payload 7 none) none = .ok ⟨.gzip, 27, 7, none, data⟩ ∧
      decode (write .gzip payload 3 none) none = .error (.decompression .gzip (.lengthMismatch 3 4)) ∧
      decode (write .gzip payload 9 none) none = .error (.decompression .gzip (.lengthMismatch 9 7)) := by
  intro data payload
  have hd : decode (write .gzip payload 7 none) none = .ok ⟨.gzip, 27, 7, none, data⟩ := by decide +kernel
  have hh (declared : Nat) (hlt : declared < 2 ^ 31) :
      Holds (write .gzip payload declared none) none .gzip declared payload :=
    holds_write (fun k hk => by cases hk) (by decide) (by decide) hlt
  obtain ⟨-, -, hother, -⟩ := decode_under_one_length Streams.gzip
  have hothers := (hother _ _ _ _ _ (hh 7 (by decide)) hd).2
  exact ⟨hd, hothers _ _ _ (hh 3 (by decide)) (by decide), hothers _ _ _ (hh 9 (by decide)) (by decide)⟩

end Js5.Envelope
