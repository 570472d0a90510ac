import Js5.Proofs.Envelope

/-!
# Where envelopes end

Decoding and the measure that checksums go by find the end of an envelope each in a way of its own.
-/

namespace Js5.Envelope

/-- The envelope `e` is the first `n` bytes of an input. Whatever stands behind these, they open alike but
for the version, and they are measured alike; fewer of them are reported as too few. -/
structure EndsAt (input : Bytes) (key : Option Xtea.Key) (e : Envelope) (n : Nat) : Prop where
  size : n = headerSize + e.compressedLength + if e.compression = .none then 0 else 4
  le_length : n ≤ input.length
  behind (extra : Bytes) : decode (input.take n ++ extra) key = .ok { e with version := versionOf extra } ∧
    packedLength (input.take n ++ extra) = n
  cut (m : Nat) : m < n → decode (input.take m) key =
    .error (if m < headerSize then .truncated headerSize m else .truncated (n - headerSize) (m - headerSize))

theorem decode_take_front {c : Compression} {len : Nat} {body : Bytes} (hlen : len < 2 ^ 31)
    (hb : body.length = len + c.lengthField) (key : Option Xtea.Key) {m : Nat}
    (hm : m < (front c len body).length) :
    decode ((front c len body).take m) key = .error (if m < headerSize then .truncated headerSize m
      else .truncated ((front c len body).length - headerSize) (m - headerSize)) := by
  rw [length_front] at hm ⊢
  split
  · rename_i hs
    have hl : ((front c len body).take m).length = m := by
      rw [List.length_take, length_front]
      omega
    rw [decode_short (by rwa [hl]), hl]
  · rename_i hs
    obtain ⟨k, rfl⟩ := Nat.exists_eq_add_of_le (Nat.not_lt.mp hs)
    have ht : (front c len body).take (headerSize + k) = c.toByte :: (Bytes.ofNat 4 len ++ body.take k) := by
      rw [front, headerSize, show 5 + k = 4 + k + 1 by omega, List.take_succ_cons, List.take_append,
        Bytes.length_ofNat, Nat.add_sub_cancel_left, List.take_of_length_le (by simp)]
    have hn : Bytes.toNat (Bytes.ofNat 4 len) = len := Bytes.toNat_ofNat_of_lt (by omega)
    have hk : (body.take k).length = k := by
      rw [List.length_take]
      omega
    rw [ht, decode_eq _ (Bytes.length_ofNat ..), ofByte?_toByte]
    simp only [hn]
    rw [if_neg (Nat.not_le.mpr hlen), openBehind, if_pos (by omega), hk, Nat.add_sub_cancel_left,
      Nat.add_sub_cancel_left, hb]

theorem endsAt_length_front {body : Bytes} {key : Option Xtea.Key} {e : Envelope}
    (hlen : e.compressedLength < 2 ^ 31) (hb : body.length = e.compressedLength + e.compression.lengthField)
    (ho : openPlain e.compression (plain key body) = .ok (e.uncompressedLength, e.data)) (rest : Bytes) :
    EndsAt (front e.compression e.compressedLength body ++ rest) key e
      (front e.compression e.compressedLength body).length where
  size := by
    rw [length_front, hb, Nat.add_assoc, add_lengthField]
    split <;> rfl
  le_length := by
    rw [List.length_append]
    exact Nat.le_add_right ..
  behind extra := by
    rw [List.take_left]
    refine ⟨decode_eq_ok_iff.mpr ⟨body, extra, ?_, hlen, hb, ho, rfl⟩, packedLength_front hlen hb extra⟩
    exact front_append ..
  cut m hm := by
    rw [List.take_append_of_le_length (Nat.le_of_lt hm)]
    exact decode_take_front hlen hb key hm

/-- **Envelopes end where they are measured to end.** What opens is an envelope of as many bytes as it is
measured to have, and needs these and no others; and no input is measured to be longer than it is. -/
theorem endsAt_packedLength (input : Bytes) (key : Option Xtea.Key) :
    (∀ e, decode input key = .ok e → EndsAt input key e (packedLength input)) ∧
      packedLength input ≤ input.length := by
  refine ⟨fun e h => ?_, packedLength_le input⟩
  obtain ⟨body, rest, hi, hlen, hb, ho, -⟩ := decode_eq_ok_iff.mp h
  rw [← front_append] at hi
  rw [hi, packedLength_front hlen hb]
  exact endsAt_length_front hlen hb ho rest

/-- Enciphered gzip with a version behind it: with three other bytes there the version is another, and
without the last of its own bytes it is cut short. -/
theorem endsAt_packedLength_gzip :
    let data : Bytes := [0x4f, 0x70, 0x65, 0x6e, 0x52, 0x53, 0x32]
    let payload : Bytes := [0x1f, 0x8b, 0x08, 0, 0, 0, 0, 0, 0x02, 0xff, 0xf3, 0x2f, 0x48, 0xcd, 0x0b,
      0x0a, 0x36, 0x02, 0x00, 0xeb, 0x0a, 0x5f, 0x98, 0x07, 0, 0, 0]
    let k : Xtea.Key := ⟨0x00112233, 0x44556677, 0x8899aabb, 0xccddeeff⟩
    let input := write .gzip payload 7 (some k) ++ [0x12, 0x34]
    decode input (some k) = .ok ⟨.gzip, 27, 7, some 0x1234, data⟩ ∧ packedLength input = 36 ∧
      decode (input.take 36 ++ [1, 2, 3]) (some k) = .ok ⟨.gzip, 27, 7, some 0x0102, data⟩ ∧
      decode (input.take 35) (some k) = .error (.truncated 31 30) := by
  intro data payload k input
  have hd : decode input (some k) = .ok ⟨.gzip, 27, 7, some 0x1234, data⟩ := by decide +kernel
  have hn : packedLength input = 36 := by decide +kernel
  have h := (endsAt_packedLength input (some k)).1 _ hd
  rw [hn] at h
  exact ⟨hd, hn, (h.behind [1, 2, 3]).1, h.cut 35 (by decide)⟩

end Js5.Envelope
