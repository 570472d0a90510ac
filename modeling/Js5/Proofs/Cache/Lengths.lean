import Js5.Cache.Call
import Js5.Proofs.Archive
import Js5.Proofs.Checked.Stripes
import Js5.Proofs.Envelope

/-! # Every file that is read is shorter than 2 ^ 31 bytes -/

namespace Js5

namespace Archive

variable {W S : Type} [Store W S] {w : W} {s : S} {a : Archive} {group : UInt32} {key : Option Xtea.Key}

theorem decoded_of_unpack {entry : Option ReferenceIndex.Group} (he : a.entry group = .ok entry)
    {bytes data : Bytes} (h : a.unpack entry key bytes = .ok data) : decoded key bytes = .ok data := by
  cases entry with
  | none => rwa [a.unpack_none] at h
  | some g =>
    obtain ⟨index, hi, -⟩ := index_of_entry_some he
    rcases unpack_some hi g key bytes with ⟨hu, -⟩ | ⟨e, hu, -⟩
    · rwa [hu] at h
    · rw [hu] at h
      cases h

theorem length_openGroup_lt {packed : Except StoreError Bytes} {p : Option ReferenceIndex.Group × Bytes}
    (h : a.openGroup group key packed = .ok p) : p.2.length < 2 ^ 31 := by
  obtain ⟨entry, he, h⟩ := bind_eq_ok h
  obtain ⟨bytes, -, h⟩ := bind_eq_ok h
  obtain ⟨data, hu, h⟩ := bind_eq_ok h
  cases h
  obtain ⟨envelope, hd, rfl⟩ := decoded_eq_ok (decoded_of_unpack he hu)
  exact (Envelope.length_data_lt hd).2

theorem length_fileOf_le {file : UInt16} {entry : Option ReferenceIndex.Group} {data b : Bytes}
    (h : fileOf file entry data = .ok b) : b.length ≤ data.length := by
  cases entry with
  | none =>
    cases h
    exact Nat.le_refl _
  | some g => exact Stripes.length_file_le (mapError_eq_ok h)

theorem length_read_lt {file : UInt16} {b : Bytes} (h : (a.read w s group file key).1 = .ok b) :
    b.length < 2 ^ 31 := by
  rw [read_fst] at h
  obtain ⟨p, hp, hf⟩ := bind_eq_ok h
  exact Nat.lt_of_le_of_lt (length_fileOf_le hf) (length_openGroup_lt hp)

theorem length_readNamed_lt {hash : UInt32} {file : UInt16} {b : Bytes}
    (h : (a.readNamed w s hash file key).1 = .ok b) :
    b.length < 2 ^ 31 := by
  unfold readNamed at h
  split at h
  · cases h
  · exact length_read_lt h

end Archive

namespace Cache

variable {W S : Type} [Store W S] {w : W} {c : Cache S}

theorem exists_of_withArchive {α : Type} {id : UInt8} {ask : Archive → S → Except ArchiveError α × S} {v : α}
    (h : (c.withArchive w id ask).1 = .ok v) : ∃ a s, (ask a s).1 = .ok v := by
  unfold withArchive at h
  split at h
  · cases h
  · split at h
    · cases h
    · exact ⟨_, _, mapError_eq_ok h⟩

theorem length_ask_lt (call : Call) {b : Bytes} (h : (c.ask w call).1 = .bytes (.ok b)) :
    b.length < 2 ^ 31 := by
  cases call with
  | read archive group file key =>
    obtain ⟨a, s, hr⟩ := exists_of_withArchive (Answer.bytes.inj h)
    exact Archive.length_read_lt hr
  | readNamed archive name file key =>
    obtain ⟨a, s, hr⟩ := exists_of_withArchive (Answer.bytes.inj h)
    exact Archive.length_readNamed_lt hr
  | _ => cases h

end Cache

end Js5
