import Js5.Proofs.Cursor
import Js5.SectorChain.Writer
import Js5.Store.Disk

/-! # Chains of sectors: what it takes for sectors of a data file to hold a group -/

namespace Js5

namespace Sector

/-! ## The two forms of headers -/

section
variable {group : UInt32}

theorem isExtended_iff : isExtended group = true ↔ 65536 ≤ group.toNat := by
  unfold isExtended
  rw [decide_eq_true_iff, UInt32.le_iff_toNat_le]
  rfl

theorem headerSize_of_lt (h : group.toNat < 65536) : headerSize group = 8 :=
  if_neg fun he => absurd (isExtended_iff.mp he) (Nat.not_le.mpr h)

theorem headerSize_of_le (h : 65536 ≤ group.toNat) : headerSize group = 10 := if_pos (isExtended_iff.mpr h)

theorem payloadSize_of_lt (h : group.toNat < 65536) : payloadSize group = 512 := by
  rw [payloadSize, headerSize_of_lt h, size]

theorem payloadSize_of_le (h : 65536 ≤ group.toNat) : payloadSize group = 510 := by
  rw [payloadSize, headerSize_of_le h, size]

theorem headerSize_eq (group : UInt32) : headerSize group = idWidth group + (2 + (3 + 1)) := by
  rcases Nat.lt_or_ge group.toNat 65536 with h | h
  · rw [headerSize_of_lt h, idWidth, if_pos h]
  · rw [headerSize_of_le h, idWidth, if_neg (Nat.not_lt.mpr h)]

theorem payloadSize_pos (group : UInt32) : 0 < payloadSize group := by
  unfold payloadSize headerSize size
  split <;> omega

def namedArchive : Layout → UInt8 → UInt8
  | .js5, x => x
  | .legacy, x => x - 1

theorem sub_firstArchive (layout : Layout) (x : UInt8) : x - firstArchive layout = namedArchive layout x := by
  cases layout with
  | js5 => exact UInt8.sub_zero x
  | legacy => rfl

theorem namedArchive_eq_iff {layout : Layout} {x archive : UInt8} :
    namedArchive layout x = archive ↔ x = storedArchive layout archive := by
  cases layout with
  | js5 => rfl
  | legacy => exact UInt8.sub_eq_iff_eq_add

theorem storedArchive_inj {layout : Layout} {archive archive' : UInt8} :
    storedArchive layout archive = storedArchive layout archive' ↔ archive = archive' := by
  rw [← namedArchive_eq_iff, namedArchive_eq_iff.mpr rfl]

end

/-! ## Headers -/

theorem consumes_groupId {group : UInt32} {b : Bytes} (hb : b.length = idWidth group) :
    Cursor.Consumes (if isExtended group then Cursor.u32 else UInt16.toUInt32 <$> Cursor.u16) b
      (UInt32.ofNat (Bytes.toNat b)) := by
  unfold idWidth at hb
  split
  · rename_i h
    rw [if_neg (Nat.not_lt.mpr (isExtended_iff.mp h))] at hb
    exact Cursor.consumes_u32 hb
  · rename_i h
    rw [if_pos (Nat.lt_of_not_le fun hle => h (isExtended_iff.mpr hle))] at hb
    have hlt : Bytes.toNat b < 65536 := by simpa [hb] using Bytes.toNat_lt b
    have hv : (UInt16.ofNat (Bytes.toNat b)).toUInt32 = UInt32.ofNat (Bytes.toNat b) := by
      apply UInt32.toNat_inj.mp
      simp
      omega
    rw [map_eq_pure_bind, ← hv]
    exact (Cursor.consumes_u16 hb).map UInt16.toUInt32

theorem readHeader_eq (layout : Layout) (group : UInt32) :
    readHeader layout group = do
      let group ←
        (if isExtended group then Cursor.u32 else UInt16.toUInt32 <$> Cursor.u16 : Cursor.Read UInt32)
      let chunk ← Cursor.u16
      let next ← Cursor.u24
      let archive ← Cursor.u8
      return ⟨group, chunk, next, namedArchive layout archive⟩ := by
  unfold readHeader
  simp only [sub_firstArchive]
  split <;> rfl

theorem header_append {layout : Layout} {group : UInt32} {g c n a : Bytes} (hg : g.length = idWidth group)
    (hc : c.length = 2) (hn : n.length = 3) (ha : a.length = 1) :
    header layout group (g ++ (c ++ (n ++ a))) =
      .ok ⟨UInt32.ofNat (Bytes.toNat g), UInt16.ofNat (Bytes.toNat c), UInt32.ofNat (Bytes.toNat n),
        namedArchive layout (UInt8.ofNat (Bytes.toNat a))⟩ := by
  have h : Cursor.Consumes (readHeader layout group) (g ++ (c ++ (n ++ a)))
      ⟨UInt32.ofNat (Bytes.toNat g), UInt16.ofNat (Bytes.toNat c), UInt32.ofNat (Bytes.toNat n),
        namedArchive layout (UInt8.ofNat (Bytes.toNat a))⟩ :=
    readHeader_eq layout group ▸ (consumes_groupId hg).bind ((Cursor.consumes_u16 hc).bind
      ((Cursor.consumes_u24 hn).bind ((Cursor.consumes_u8 ha).map _)))
  have := h.run' []
  rwa [List.append_nil] at this

end Sector

namespace SectorChain.Source

def slice (s : Source) (start n : Nat) : Bytes := (s.data.extract start (start + n)).toList

def number (s : Source) (start width : Nat) : Nat := Bytes.toNat (s.slice start width)

section
variable (s : Source)

theorem slice_add (start m n : Nat) : s.slice start (m + n) = s.slice start m ++ s.slice (start + m) n := by
  unfold slice
  simp only [Array.toList_extract, List.extract_eq_take_drop, Nat.add_sub_cancel_left]
  rw [List.take_add, List.drop_drop]

theorem length_slice {start n : Nat} (h : start + n ≤ s.data.size) : (s.slice start n).length = n := by
  unfold slice
  simp
  omega

theorem number_lt (start n : Nat) (h : start + n ≤ s.data.size) : s.number start n < 256 ^ n := by
  have := Bytes.toNat_lt (s.slice start n)
  rwa [s.length_slice h] at this

end

/-! ## Sectors -/

def start (sector : UInt32) : Nat := Sector.size * sector.toNat

/-- The sector lies in the data file as far as it is used, and its header is that of chunk number `chunk` of
the group, with `next` as the sector after it. -/
structure Holds (s : Source) (sector : UInt32) (chunk used : Nat) (next : UInt32) : Prop where
  fits : start sector + s.headerSize + used ≤ s.data.size
  group : s.number (start sector) (Sector.idWidth s.group) = s.group.toNat
  chunk : s.number (start sector + Sector.idWidth s.group) 2 = chunk % 65536
  next : s.number (start sector + Sector.idWidth s.group + 2) 3 = next.toNat
  archive : s.number (start sector + Sector.idWidth s.group + 5) 1 =
    (Sector.storedArchive s.layout s.archive).toNat

def payload (s : Source) (sector : UInt32) (used : Nat) : Bytes := s.slice (start sector + s.headerSize) used

variable (s : Source)

def headerAt (sector : UInt32) : Sector.Header :=
  ⟨UInt32.ofNat (s.number (start sector) (Sector.idWidth s.group)),
    UInt16.ofNat (s.number (start sector + Sector.idWidth s.group) 2),
    UInt32.ofNat (s.number (start sector + Sector.idWidth s.group + 2) 3),
    Sector.namedArchive s.layout (UInt8.ofNat (s.number (start sector + Sector.idWidth s.group + 5) 1))⟩

theorem header_slice (sector : UInt32) (h : start sector + s.headerSize ≤ s.data.size) :
    Sector.header s.layout s.group (s.slice (start sector) s.headerSize) = .ok (s.headerAt sector) := by
  have hs : s.headerSize = Sector.idWidth s.group + (2 + (3 + 1)) := Sector.headerSize_eq s.group
  rw [hs] at h ⊢
  rw [slice_add, slice_add, slice_add]
  exact Sector.header_append (s.length_slice (by omega)) (s.length_slice (by omega))
    (s.length_slice (by omega)) (s.length_slice (by omega))

theorem readSector_eq {sector : UInt32} {chunk used : Nat}
    (h : start sector + s.headerSize + used ≤ s.data.size) :
    s.readSector sector chunk used = (do
      s.checkHeader sector chunk (s.headerAt sector)
      return ((s.payload sector used).toArray, (s.headerAt sector).next)) := by
  have hh := s.header_slice sector (by omega)
  unfold slice start at hh
  unfold readSector payload slice start
  unfold start at h
  rw [Nat.mul_comm sector.toNat]
  simp only [if_neg (Nat.not_lt.mpr h), hh, Except.mapError]
  rfl

theorem readSector_of_lt {sector : UInt32} {chunk used : Nat}
    (h : s.data.size < start sector + s.headerSize + used) :
    s.readSector sector chunk used = .error (.sectorOutOfBounds s.archive s.group sector) := by
  unfold readSector
  unfold start at h
  rw [Nat.mul_comm sector.toNat]
  simp only [if_pos h]
  rfl

theorem checkHeader_eq_ok_iff (sector : UInt32) {chunk : Nat} {h : Sector.Header} :
    s.checkHeader sector chunk h = .ok () ↔
      h.group = s.group ∧ h.chunk = UInt16.ofNat chunk ∧ h.archive = s.archive := by
  unfold checkHeader
  by_cases hg : h.group = s.group
  · by_cases hc : h.chunk = UInt16.ofNat chunk
    · by_cases ha : h.archive = s.archive <;> simp [hg, hc, ha]
    · simp [hg, hc]
  · simp [hg]

theorem headerAt_iff {sector : UInt32} {chunk used : Nat} {next : UInt32}
    (h : start sector + s.headerSize + used ≤ s.data.size) :
    ((s.headerAt sector).group = s.group ∧ (s.headerAt sector).chunk = UInt16.ofNat chunk ∧
      (s.headerAt sector).archive = s.archive) ∧ (s.headerAt sector).next = next ↔
      s.Holds sector chunk used next := by
  have hs : s.headerSize = Sector.idWidth s.group + (2 + (3 + 1)) := Sector.headerSize_eq s.group
  have hw : 256 ^ Sector.idWidth s.group ≤ 4294967296 := by
    unfold Sector.idWidth
    split <;> decide
  have hg := s.number_lt (start sector) (Sector.idWidth s.group) (by omega)
  have hc := s.number_lt (start sector + Sector.idWidth s.group) 2 (by omega)
  have hn := s.number_lt (start sector + Sector.idWidth s.group + 2) 3 (by omega)
  have ha := s.number_lt (start sector + Sector.idWidth s.group + 5) 1 (by omega)
  simp only [Nat.reducePow] at hc hn ha
  have eg : (s.headerAt sector).group = s.group ↔
      s.number (start sector) (Sector.idWidth s.group) = s.group.toNat := by
    rw [← UInt32.toNat_inj, headerAt, UInt32.toNat_ofNat_of_lt' (by show _ < 4294967296; omega)]
  have ec : (s.headerAt sector).chunk = UInt16.ofNat chunk ↔
      s.number (start sector + Sector.idWidth s.group) 2 = chunk % 65536 := by
    rw [← UInt16.toNat_inj, headerAt, UInt16.toNat_ofNat_of_lt' (by show _ < 65536; omega),
      UInt16.toNat_ofNat']
  have en : (s.headerAt sector).next = next ↔
      s.number (start sector + Sector.idWidth s.group + 2) 3 = next.toNat := by
    rw [← UInt32.toNat_inj, headerAt, UInt32.toNat_ofNat_of_lt' (by show _ < 4294967296; omega)]
  have ea : (s.headerAt sector).archive = s.archive ↔
      s.number (start sector + Sector.idWidth s.group + 5) 1 =
        (Sector.storedArchive s.layout s.archive).toNat := by
    rw [headerAt, Sector.namedArchive_eq_iff, ← UInt8.toNat_inj,
      UInt8.toNat_ofNat_of_lt' (by show _ < 256; omega)]
  constructor
  · rintro ⟨⟨h₁, h₂, h₃⟩, h₄⟩
    exact ⟨h, eg.mp h₁, ec.mp h₂, en.mp h₄, ea.mp h₃⟩
  · intro hh
    exact ⟨⟨eg.mpr hh.group, ec.mpr hh.chunk, ea.mpr hh.archive⟩, en.mpr hh.next⟩

theorem readSector_eq_ok_iff {sector : UInt32} {chunk used : Nat} {bytes : Array UInt8} {next : UInt32} :
    s.readSector sector chunk used = .ok (bytes, next) ↔
      s.Holds sector chunk used next ∧ bytes.toList = s.payload sector used := by
  rcases Nat.lt_or_ge s.data.size (start sector + s.headerSize + used) with h | h
  · rw [s.readSector_of_lt h]
    constructor
    · intro he; cases he
    · rintro ⟨hh, -⟩
      exact absurd hh.fits (Nat.not_le.mpr h)
  rw [s.readSector_eq h, ← s.headerAt_iff h, ← s.checkHeader_eq_ok_iff sector]
  cases hc : s.checkHeader sector chunk (s.headerAt sector) with
  | error e => simp [bind, Except.bind]
  | ok u =>
    show Except.ok ((s.payload sector used).toArray, (s.headerAt sector).next) = Except.ok (bytes, next) ↔ _
    simp only [Except.ok.injEq, Prod.mk.injEq, true_and]
    rw [and_comm, ← Array.toList_inj, List.toList_toArray, eq_comm (a := bytes.toList)]

/-! ## Chains -/

def used (s : Source) (length i : Nat) : Nat := min s.payloadSize (length - i * s.payloadSize)

/-- The sectors hold one chunk after the other, the first of them chunk number `chunk`, and every one points
to the next, the last one to none. -/
def Linked (s : Source) (length chunk : Nat) (chain : List UInt32) : Prop :=
  ∀ (i : Nat) (h : i < chain.length), chain[i] ≠ 0 ∧
    s.Holds chain[i] (chunk + i) (s.used length (chunk + i)) (chain[i + 1]?.getD 0)

def content (s : Source) (length chunk : Nat) (chain : List UInt32) : Bytes :=
  (chain.zipIdx chunk).flatMap fun p => s.payload p.1 (s.used length p.2)

theorem linked_cons {length chunk : Nat} {sector : UInt32} {chain : List UInt32} :
    s.Linked length chunk (sector :: chain) ↔
      (sector ≠ 0 ∧ s.Holds sector chunk (s.used length chunk) (chain[0]?.getD 0)) ∧
        s.Linked length (chunk + 1) chain := by
  constructor
  · intro h
    refine ⟨by simpa using h 0 (Nat.succ_pos _), fun i hi => ?_⟩
    have := h (i + 1) (Nat.succ_lt_succ hi)
    rwa [show chunk + (i + 1) = chunk + 1 + i by omega] at this
  · rintro ⟨h₀, h⟩ i hi
    cases i with
    | zero => simpa using h₀
    | succ i =>
      rw [show chunk + (i + 1) = chunk + 1 + i by omega]
      exact h i (Nat.lt_of_succ_lt_succ hi)

theorem length_payload {sector next : UInt32} {chunk used : Nat} (h : s.Holds sector chunk used next) :
    (s.payload sector used).length = used :=
  s.length_slice h.fits

/-- What is left to come of `length` bytes is settled by how many sectors are behind, since all of them but
the last are full. -/
theorem length_content {length : Nat} : ∀ {chunk : Nat} {chain : List UInt32}, s.Linked length chunk chain →
    (s.content length chunk chain).length =
      min (length - chunk * s.payloadSize) (chain.length * s.payloadSize)
  | chunk, [], _ => by simp [content]
  | chunk, sector :: chain, h => by
    rw [linked_cons] at h
    have hp := s.length_payload h.1.2
    have ih := length_content h.2
    unfold content at ih ⊢
    rw [List.zipIdx_cons, List.flatMap_cons, List.length_append, hp, ih]
    unfold used
    rw [List.length_cons, Nat.add_mul, Nat.add_mul, Nat.one_mul]
    omega

theorem walk_succ {length chunk left : Nat} {sector : UInt32} {buf out : Array UInt8} :
    s.walk length chunk sector buf (left + 1) = .ok out ↔ sector ≠ 0 ∧ ∃ bytes next,
      s.readSector sector chunk (min (length - buf.size) s.payloadSize) = .ok (bytes, next) ∧
        s.walk length (chunk + 1) next (buf ++ bytes) left = .ok out := by
  rw [walk]
  by_cases h : sector = 0
  · simp [h, bind, Except.bind]
  cases hr : s.readSector sector chunk (min (length - buf.size) s.payloadSize) with
  | error e => simp [h, bind, Except.bind]
  | ok p =>
    obtain ⟨bytes, next⟩ := p
    simp only [if_neg h, bind, Except.bind]
    constructor
    · intro hw
      exact ⟨h, bytes, next, rfl, hw⟩
    · rintro ⟨-, _, _, ⟨rfl, rfl⟩, hw⟩
      exact hw

section
variable {length chunk : Nat} {buf : Array UInt8}

theorem min_eq_used (hb : buf.size = min length (chunk * s.payloadSize)) :
    min (length - buf.size) s.payloadSize = s.used length chunk := by
  unfold used
  omega

theorem size_append (hb : buf.size = min length (chunk * s.payloadSize)) {bytes : Array UInt8}
    (h : bytes.size = s.used length chunk) :
    (buf ++ bytes).size = min length ((chunk + 1) * s.payloadSize) := by
  unfold used at h
  rw [Array.size_append, hb, h, Nat.add_mul]
  omega

theorem size_of_holds {sector next : UInt32} {used : Nat} (h : s.Holds sector chunk used next)
    {bytes : Array UInt8} (hp : bytes.toList = s.payload sector used) : bytes.size = used := by
  rw [← Array.length_toList, hp, s.length_payload h]

end

/-- Going along a chain from a place where `buf` holds all chunks before number `chunk`. -/
theorem walk_eq_ok_iff (length : Nat) (out : Array UInt8) :
    ∀ (left chunk : Nat) (sector : UInt32) (buf : Array UInt8),
      buf.size = min length (chunk * s.payloadSize) →
      (s.walk length chunk sector buf left = .ok out ↔ ∃ chain : List UInt32, chain.length = left ∧
        chain[0]?.getD 0 = sector ∧ s.Linked length chunk chain ∧
          out.toList = buf.toList ++ s.content length chunk chain)
  | 0, chunk, sector, buf, _ => by
    rw [walk]
    constructor
    · intro h
      by_cases h₀ : sector = 0
      · rw [if_pos h₀] at h
        cases h
        exact ⟨[], rfl, h₀.symm, fun i hi => absurd hi (Nat.not_lt_zero i), by simp [content]⟩
      · rw [if_neg h₀] at h
        cases h
    · rintro ⟨chain, hl, rfl, -, ho⟩
      rw [List.length_eq_zero_iff] at hl
      subst hl
      simpa [content, eq_comm] using ho
  | left + 1, chunk, sector, buf, hb => by
    -- the first sector fills `buf` up to the next chunk; the others are a chain from where it points
    rw [walk_succ, s.min_eq_used hb]
    constructor
    · rintro ⟨h₀, bytes, next, hr, hw⟩
      obtain ⟨hh, hp⟩ := s.readSector_eq_ok_iff.mp hr
      have hb' := s.size_append hb (s.size_of_holds hh hp)
      obtain ⟨chain, hl, hn, hc, ho⟩ := (walk_eq_ok_iff length out left (chunk + 1) next _ hb').mp hw
      refine ⟨sector :: chain, by simp [hl], rfl, s.linked_cons.mpr ⟨⟨h₀, hn ▸ hh⟩, hc⟩, ?_⟩
      rw [ho, Array.toList_append, hp, List.append_assoc, content, content, List.zipIdx_cons,
        List.flatMap_cons]
    · rintro ⟨chain, hl, hf, hc, ho⟩
      cases chain with
      | nil => cases hl
      | cons first chain =>
        obtain rfl : first = sector := hf
        obtain ⟨⟨h₀, hh⟩, hc⟩ := s.linked_cons.mp hc
        refine ⟨h₀, (s.payload first (s.used length chunk)).toArray, _,
          s.readSector_eq_ok_iff.mpr ⟨hh, rfl⟩, ?_⟩
        refine (walk_eq_ok_iff length out left (chunk + 1) _ _ (s.size_append hb ?_)).mpr
          ⟨chain, Nat.succ.inj hl, rfl, hc, ?_⟩
        · rw [List.size_toArray, s.length_payload hh]
        · rw [ho, Array.toList_append, List.append_assoc, content, content, List.zipIdx_cons,
            List.flatMap_cons]

/-- The sectors that hold the bytes of a record: as many as it takes, from the record's sector on, and the
last of them is used no further than the length says. -/
structure IsChain (s : Source) (r : IndexRecord) (chain : List UInt32) : Prop where
  length : chain.length = (r.length.toNat + s.payloadSize - 1) / s.payloadSize
  first : ∀ _ : 0 < chain.length, chain[0] = r.sector
  inUse : ∀ (i : Nat) (_ : i < chain.length), chain[i] ≠ 0
  holds : ∀ (i : Nat) (_ : i < chain.length),
    s.Holds chain[i] i (min s.payloadSize (r.length.toNat - i * s.payloadSize)) (chain[i + 1]?.getD 0)

theorem IsChain.linked {r : IndexRecord} {chain : List UInt32} (h : s.IsChain r chain) :
    s.Linked r.length.toNat 0 chain := by
  intro i hi
  rw [Nat.zero_add]
  exact ⟨h.inUse i hi, h.holds i hi⟩

theorem Linked.isChain {r : IndexRecord} {chain : List UInt32} (h : s.Linked r.length.toNat 0 chain)
    (hl : chain.length = s.sectorCount r.length.toNat) (hf : ∀ _ : 0 < chain.length, chain[0] = r.sector) :
    s.IsChain r chain := by
  refine ⟨hl, hf, fun i hi => (h i hi).1, fun i hi => ?_⟩
  have := (h i hi).2
  rwa [Nat.zero_add] at this

theorem sectorCount_pos {length : Nat} (h : length ≠ 0) : 0 < s.sectorCount length := by
  have hp : 0 < s.payloadSize := Sector.payloadSize_pos s.group
  exact Nat.div_pos (by omega) hp

theorem le_sectorCount_mul (length : Nat) : length ≤ s.sectorCount length * s.payloadSize := by
  have hp : 0 < s.payloadSize := Sector.payloadSize_pos s.group
  have := Nat.lt_div_mul_add hp (a := length + s.payloadSize - 1)
  unfold sectorCount
  omega

theorem IsChain.length_content {r : IndexRecord} {chain : List UInt32} (h : s.IsChain r chain) :
    (s.content r.length.toNat 0 chain).length = r.length.toNat := by
  have hl : chain.length = s.sectorCount r.length.toNat := h.length
  have := s.le_sectorCount_mul r.length.toNat
  rw [s.length_content h.linked, hl]
  omega

theorem read_eq_ok_iff {r : IndexRecord} {buf : Bytes} :
    s.read r = .ok buf ↔ ∃ chain, s.IsChain r chain ∧ buf = s.content r.length.toNat 0 chain := by
  unfold read
  by_cases h₀ : r.length = 0
  · rw [if_pos h₀]
    have hn : r.length.toNat = 0 := by rw [h₀]; rfl
    have hc : s.sectorCount 0 = 0 := by
      have hp : 0 < s.payloadSize := Sector.payloadSize_pos s.group
      exact Nat.div_eq_of_lt (by omega)
    constructor
    · intro h
      cases h
      refine ⟨[], Linked.isChain s (fun i hi => absurd hi (Nat.not_lt_zero i)) ?_ ?_, rfl⟩
      · rw [hn, hc]; rfl
      · intro hi
        exact absurd hi (Nat.not_lt_zero 0)
    · rintro ⟨chain, h, rfl⟩
      have hl := h.length_content
      rw [hn] at hl ⊢
      rw [List.eq_nil_of_length_eq_zero hl]
  rw [if_neg h₀]
  have hn : r.length.toNat ≠ 0 := fun h => h₀ (UInt32.toNat_inj.mp h)
  have hp := s.sectorCount_pos hn
  have hw := fun out => s.walk_eq_ok_iff r.length.toNat out (s.sectorCount r.length.toNat) 0 r.sector #[]
    (by simp)
  constructor
  · intro h
    cases hr : s.walk r.length.toNat 0 r.sector #[] (s.sectorCount r.length.toNat) with
    | error e => rw [hr] at h; cases h
    | ok out =>
      rw [hr] at h
      obtain rfl : out.toList = buf := Except.ok.inj h
      obtain ⟨chain, hl, hf, hc, ho⟩ := (hw out).mp hr
      refine ⟨chain, Linked.isChain s hc hl fun hi => ?_, ho⟩
      rw [List.getElem?_eq_getElem hi] at hf
      exact hf
  · rintro ⟨chain, h, rfl⟩
    have hl : chain.length = s.sectorCount r.length.toNat := h.length
    have hi : 0 < chain.length := hl ▸ hp
    have hf : chain[0]?.getD 0 = r.sector := by
      rw [List.getElem?_eq_getElem hi]
      exact h.first hi
    rw [(hw (s.content r.length.toNat 0 chain).toArray).mpr ⟨chain, hl, hf, h.linked, rfl⟩]
    rfl

end SectorChain.Source

namespace DiskStore

def source (s : DiskStore) (archive : UInt8) (group : UInt32) : SectorChain.Source :=
  ⟨s.dataFor archive, s.layout, archive, group⟩

/-- **Exact acceptance of chains.** Reading a record gives `buf` exactly if the sectors that it takes are
there and hold `buf`. A record without bytes has no chain to go along. -/
theorem readChain_eq_ok_iff (s : DiskStore) (archive : UInt8) (group : UInt32) (r : IndexRecord)
    (buf : Bytes) :
    (s.readChain archive group r = .ok buf ↔ ∃ chain : List UInt32, (s.source archive group).IsChain r chain ∧
      buf = (s.source archive group).content r.length.toNat 0 chain ∧ buf.length = r.length.toNat) ∧
    (r.length = 0 → s.readChain archive group r = .ok []) := by
  constructor
  · refine (s.source archive group).read_eq_ok_iff.trans ⟨?_, ?_⟩
    · rintro ⟨chain, h, rfl⟩
      exact ⟨chain, h, rfl, h.length_content⟩
    · rintro ⟨chain, h, hb, -⟩
      exact ⟨chain, h, hb⟩
  · intro h
    unfold readChain SectorChain.Source.read
    rw [if_pos h]

end DiskStore

end Js5
