import Js5.Proofs.Checked.Envelope
import Js5.Proofs.Checked.SectorChain
import Js5.Proofs.Checked.Stripes
import Js5.Proofs.ReferenceIndex.Shortage

/-! # Nothing is read out of bounds -/

namespace Js5

/-- **Reading stays in bounds.** Whether bytes, keys, file ids and records are well-formed or not: every part
that is taken is there, and only a reference index reports missing bytes, which it does truthfully. -/
theorem reads_in_bounds :
    (∀ (width : Nat) (c : Cursor), (Cursor.number? width c).run =
      some (((do return Bytes.toNat (← Cursor.take width) : Cursor.Read Nat) c).mapError .outOfBounds)) ∧
    (∀ (input : Bytes) (key : Option Xtea.Key),
      (Envelope.decode? input key).run = some (Envelope.decode input key) ∧
      ∀ e, Envelope.decode input key ≠ .error (.outOfBounds e)) ∧
    (∀ packed : Bytes, packed.slice? 0 (Envelope.packedLength packed) =
      some (packed.take (Envelope.packedLength packed))) ∧
    (∀ (input : Bytes) (ids : List UInt32),
      (Stripes.split? input ids).run = some (Stripes.split input ids) ∧
      ∀ e, Stripes.split input ids ≠ .error (.outOfBounds e)) ∧
    (∀ (input : Bytes) (ids : List UInt32) (id : UInt32),
      (Stripes.file? input ids id).run = some (Stripes.file input ids id) ∧
      ∀ e, Stripes.file input ids id ≠ .error (.outOfBounds e)) ∧
    (∀ (s : DiskStore) (archive : UInt8) (group : UInt32) (r : IndexRecord),
      ((s.source archive group).read? r).run = some (s.readChain archive group r) ∧
      ∀ e, s.readChain archive group r ≠ .error (.outOfBounds e)) ∧
    (∀ (archive : UInt8) (b : Bytes) (e : OutOfBounds), IndexFile.parse archive b ≠ .error (.outOfBounds e)) ∧
    (∀ (d : Directory) (s : DiskStore) (archive : UInt8) (e : OutOfBounds),
      (s.list d archive).1 ≠ .error (.outOfBounds e) ∧
      ∀ group : UInt32, (s.read d archive group).1 ≠ .error (.outOfBounds e)) ∧
    (∀ (b : Bytes) (e : OutOfBounds), ReferenceIndex.ofBytes b = .error (.outOfBounds e) →
      e.IsShortage b.length) := by
  refine ⟨Cursor.number?_eq, ?_, ?_, ?_, ?_, ?_, ?_, ?_, ?_⟩
  · exact fun input key => ⟨Envelope.decode?_eq input key, Envelope.decode_ne_outOfBounds input key⟩
  · exact fun packed => Bytes.slice?_zero (Envelope.packedLength_le packed)
  · exact fun input ids => ⟨Stripes.split?_eq input ids, Stripes.split_ne_outOfBounds input ids⟩
  · exact fun input ids id => ⟨Stripes.file?_eq input ids id, Stripes.file_ne_outOfBounds input ids id⟩
  · intro s archive group r
    exact ⟨(s.source archive group).read?_eq r, fun e he => DiskStore.readChain_isProper he e rfl⟩
  · exact fun archive b e he => IndexFile.parse_isProper he e rfl
  · intro d s archive e
    exact ⟨fun he => DiskStore.list_isProper he e rfl, fun group he => DiskStore.read_isProper he e rfl⟩
  · exact fun b e => ReferenceIndex.isShortage_of_ofBytes

/-- An index that announces a great many groups and ends there. -/
theorem reads_in_bounds_cut_short :
    let b : Bytes := [7, 0, 0, 0, 0, 0, 0xff, 0xff, 0xff, 0xff]
    ReferenceIndex.ofBytes b = .error (.outOfBounds ⟨10, 1, 0⟩) ∧
      OutOfBounds.IsShortage b.length ⟨10, 1, 0⟩ := by
  intro b
  have h : ReferenceIndex.ofBytes b = .error (.outOfBounds ⟨10, 1, 0⟩) := by decide +kernel
  obtain ⟨-, -, -, -, -, -, -, -, hindex⟩ := reads_in_bounds
  exact ⟨h, hindex b _ h⟩

end Js5
