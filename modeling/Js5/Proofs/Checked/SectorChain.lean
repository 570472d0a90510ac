import Js5.Proofs.Checked.Slices
import Js5.Proofs.Outcome
import Js5.Proofs.SectorChain
import Js5.Proofs.Store.Freezing
import Js5.Proofs.Store.Steady

/-!
# Sectors stay within the data file

The place of a sector comes from a file and may be anywhere. It is held against the size of the data file
before its header is read; a sector number has no more than 32 bits, so its place has no more than 64.
-/

namespace Js5

def StoreError.IsProper (e : StoreError) : Prop := ∀ s, e ≠ .outOfBounds s

namespace SectorChain.Source

def readSector? (s : Source) (sector : UInt32) (chunk used : Nat) : Checked StoreError (Bytes × UInt32) := do
  let start ← size? (sector.toNat * Sector.size)
  let payload ← size? (start + s.headerSize)
  let stop ← size? (payload + used)
  if s.data.size < stop then
    throw (.sectorOutOfBounds s.archive s.group sector)
  let head ← Bytes.slice? s.data.toList start payload
  let header ← liftM ((Sector.header s.layout s.group head).mapError StoreError.outOfBounds)
  liftM (s.checkHeader sector chunk header)
  let bytes ← Bytes.slice? s.data.toList payload stop
  return (bytes, header.next)

def walk? (s : Source) (length : Nat) (chunk : Nat) (sector : UInt32) (buf : Bytes) :
    (left : Nat) → Checked StoreError Bytes
  | 0 => if sector = 0 then return buf else throw (.unterminatedChain s.archive s.group sector)
  | left + 1 => do
    if sector = 0 then
      throw (.truncatedChain s.archive s.group length buf.length)
    let (bytes, next) ← s.readSector? sector chunk (min (length - buf.length) s.payloadSize)
    walk? s length (chunk + 1) next (buf ++ bytes) left

def read? (s : Source) (r : IndexRecord) : Checked StoreError Bytes :=
  if r.length = 0 then return []
  else s.walk? r.length.toNat 0 r.sector [] (s.sectorCount r.length.toNat)

variable (s : Source)

theorem place_lt (sector : UInt32) {used : Nat} (h : used ≤ s.payloadSize) :
    sector.toNat * Sector.size + s.headerSize + used < UInt64.size := by
  have hs := sector.toNat_lt
  have hsum : s.headerSize + s.payloadSize = Sector.size := by
    unfold headerSize payloadSize Sector.payloadSize Sector.headerSize
    split <;> rfl
  unfold Sector.size UInt64.size at *
  omega

theorem readSector?_eq (sector : UInt32) (chunk : Nat) {used : Nat} (h : used ≤ s.payloadSize) :
    (s.readSector? sector chunk used).run =
      some ((s.readSector sector chunk used).map fun p => (p.1.toList, p.2)) := by
  have hp := s.place_lt sector h
  unfold readSector? readSector
  rw [Checked.bind_some (size?_of_lt (by omega)), Checked.bind_some (size?_of_lt (by omega)),
    Checked.bind_some (size?_of_lt hp)]
  simp only
  by_cases hlt : s.data.size < sector.toNat * Sector.size + s.headerSize + used
  · rw [if_pos hlt, if_pos hlt]
    rfl
  · have hle := Nat.not_lt.mp hlt
    have hpayload := Bytes.slice?_extract
      (Nat.le_add_right (sector.toNat * Sector.size + s.headerSize) used) hle
    rw [if_neg hlt, if_neg hlt, Checked.bind_some (Bytes.slice?_extract (Nat.le_add_right ..) (by omega))]
    cases (Sector.header s.layout s.group _).mapError StoreError.outOfBounds with
    | error e => rfl
    | ok header =>
      show ((liftM (s.checkHeader sector chunk header) : Checked StoreError Unit) >>= _).run =
        some (Except.map _ (s.checkHeader sector chunk header >>= _))
      cases s.checkHeader sector chunk header with
      | error e => rfl
      | ok =>
        show ((liftM (Bytes.slice? s.data.toList _ _) : Checked StoreError Bytes) >>= _).run = _
        rw [Checked.bind_some hpayload]
        rfl

theorem walk?_eq (length : Nat) : ∀ (left chunk : Nat) (sector : UInt32) (buf : Array UInt8),
    (s.walk? length chunk sector buf.toList left).run =
      some ((s.walk length chunk sector buf left).map Array.toList)
  | 0, chunk, sector, buf => by
    unfold walk? walk
    split <;> rfl
  | left + 1, chunk, sector, buf => by
    unfold walk? walk
    split
    · rfl
    · have hstep := s.readSector?_eq sector chunk (Nat.min_le_right (length - buf.size) s.payloadSize)
      simp only [Array.length_toList]
      cases hr : s.readSector sector chunk (min (length - buf.size) s.payloadSize) with
      | error e =>
        rw [hr] at hstep
        exact Checked.bind_of_error hstep _
      | ok p =>
        rw [hr] at hstep
        have hwalk := walk?_eq length left (chunk + 1) p.2 (buf ++ p.1)
        rw [Array.toList_append] at hwalk
        exact (Checked.bind_of_ok hstep _).trans hwalk

theorem read?_eq (r : IndexRecord) : (s.read? r).run = some (s.read r) := by
  unfold read? read
  split
  · rfl
  · exact s.walk?_eq r.length.toNat _ 0 r.sector #[]

/-! ## Errors -/

theorem readSector_isProper {sector : UInt32} {chunk used : Nat} {e : StoreError}
    (h : s.readSector sector chunk used = .error e) : e.IsProper := by
  rcases Nat.lt_or_ge s.data.size (start sector + s.headerSize + used) with hlt | hle
  · rw [readSector_of_lt s hlt] at h
    cases h
    exact fun _ he => by cases he
  · rw [readSector_eq s hle] at h
    unfold checkHeader at h
    split at h
    · cases h
      exact fun _ he => by cases he
    · split at h
      · cases h
        exact fun _ he => by cases he
      · split at h
        · cases h
          exact fun _ he => by cases he
        · cases h

theorem walk_isProper {length : Nat} {e : StoreError} :
    ∀ {left chunk : Nat} {sector : UInt32} {buf : Array UInt8},
    s.walk length chunk sector buf left = .error e → e.IsProper
  | 0, chunk, sector, buf, h => by
    unfold walk at h
    split at h
    · cases h
    · cases h
      exact fun _ he => by cases he
  | left + 1, chunk, sector, buf, h => by
    unfold walk at h
    split at h
    · cases h
      exact fun _ he => by cases he
    · rcases bind_eq_error h with hr | ⟨p, -, hw⟩
      · exact s.readSector_isProper hr
      · exact walk_isProper hw

theorem read_isProper {r : IndexRecord} {e : StoreError} (h : s.read r = .error e) : e.IsProper := by
  unfold read at h
  split at h
  · cases h
  · exact s.walk_isProper (map_eq_error h)

end SectorChain.Source

/-! ## Index files and stores -/

theorem IndexFile.parse_isProper {archive : UInt8} {b : Bytes} {e : StoreError}
    (h : parse archive b = .error e) :
    e.IsProper := by
  rw [parse_eq] at h
  split at h
  · cases h
  · cases h
    exact fun _ he => by cases he

theorem IndexFiles.load_isProper {d : Directory} {s : IndexFiles} {archive : UInt8} {e : StoreError}
    (h : (s.load d archive).1 = .error e) : e.IsProper := by
  rw [load_fst] at h
  cases hl : s.loaded.lookup archive with
  | some f => rw [hl] at h; cases h
  | none =>
    rw [hl] at h
    change s.readFile d archive = .error e at h
    unfold readFile at h
    split at h
    · exact IndexFile.parse_isProper h
    · cases h
      exact fun _ he => by cases he
    · cases h
      exact fun _ he => by cases he
    · cases h
      exact fun _ he => by cases he

namespace DiskStore

variable {d : Directory} {s : DiskStore} {archive : UInt8} {group : UInt32} {e : StoreError}

theorem readChain_isProper {r : IndexRecord} (h : s.readChain archive group r = .error e) : e.IsProper :=
  SectorChain.Source.read_isProper _ h

theorem list_isProper (h : (s.list d archive).1 = .error e) : e.IsProper :=
  IndexFiles.load_isProper (map_eq_error h)

theorem read_isProper (h : (s.read d archive group).1 = .error e) : e.IsProper := by
  rw [read_eq] at h
  rcases bind_eq_error h with hl | ⟨r, -, hr⟩
  · rw [IndexFiles.lookup_eq] at hl
    rcases bind_eq_error hl with hf | ⟨f, -, hg⟩
    · exact IndexFiles.load_isProper hf
    · cases hg' : f.get? group with
      | some r => rw [hg'] at hg; cases hg
      | none =>
        rw [hg'] at hg
        cases hg
        exact fun _ he => by cases he
  · exact readChain_isProper hr

end DiskStore

end Js5
