import Js5.Proofs.Checked.Slices
import Js5.Proofs.Outcome
import Js5.Proofs.SectorChain
import Mathlib.Logic.ExistsUnique

/-!
# Faults of chains

Going along a chain ends at the first sector that is not as it should be, and the error says what is wrong
with that one.
-/

namespace Js5.SectorChain.Source

variable (s : Source) (r : IndexRecord)

/-- Behind `k` sectors that are all as they should be, the chain of a record has come to `sector`. -/
inductive Reaches : (k : Nat) → (sector : UInt32) → Prop
  | first : Reaches 0 r.sector
  | next {k : Nat} {sector next : UInt32} :
    Reaches k sector → k * s.payloadSize < r.length.toNat → sector ≠ 0 →
      s.Holds sector k (s.used r.length.toNat k) next → Reaches (k + 1) next

inductive Mismatch (k : Nat) (h : Sector.Header) : Sector.Field → (expected actual : UInt32) → Prop
  | group : h.group ≠ s.group → Mismatch k h .group s.group h.group
  | chunk : h.group = s.group → h.chunk.toNat ≠ k % 65536 →
      Mismatch k h .chunk (UInt32.ofNat (k % 65536)) h.chunk.toUInt32
  | archive : h.group = s.group → h.chunk.toNat = k % 65536 → h.archive ≠ s.archive →
      Mismatch k h .archive s.archive.toUInt32 h.archive.toUInt32

/-- What is wrong with `sector`, to which the chain has come behind `k` others: it is not there though it is
needed, it does not lie in the data file, it is another's; or it is there though it is not needed. -/
inductive Fault (k : Nat) (sector : UInt32) : StoreError → Prop
  | truncated : k * s.payloadSize < r.length.toNat → sector = 0 →
      Fault k sector (.truncatedChain s.archive s.group r.length.toNat (k * s.payloadSize))
  | outOfBounds : k * s.payloadSize < r.length.toNat → sector ≠ 0 →
      s.data.size < start sector + s.headerSize + s.used r.length.toNat k →
      Fault k sector (.sectorOutOfBounds s.archive s.group sector)
  | mismatch {field : Sector.Field} {expected actual : UInt32} :
    k * s.payloadSize < r.length.toNat → sector ≠ 0 →
      start sector + s.headerSize + s.used r.length.toNat k ≤ s.data.size →
      s.Mismatch k (s.headerAt sector) field expected actual →
      Fault k sector (.sectorMismatch s.archive s.group sector field expected actual)
  | unterminated : 0 < k → k = s.sectorCount r.length.toNat → sector ≠ 0 →
      Fault k sector (.unterminatedChain s.archive s.group sector)

def part? (k : Nat) (sector : UInt32) : Option Bytes :=
  Bytes.slice? s.data.toList (start sector) (start sector + s.headerSize + s.used r.length.toNat k)

variable {s r}

/-! ## Places -/

theorem lt_sectorCount_iff {length k : Nat} : k < s.sectorCount length ↔ k * s.payloadSize < length := by
  have hp : 0 < s.payloadSize := Sector.payloadSize_pos s.group
  unfold sectorCount
  rw [Nat.lt_iff_add_one_le, Nat.le_div_iff_mul_le hp, Nat.add_mul]
  omega

theorem Holds.next_unique {sector a b : UInt32} {k used : Nat} (ha : s.Holds sector k used a)
    (hb : s.Holds sector k used b) :
    a = b :=
  UInt32.toNat_inj.mp (ha.next.symm.trans hb.next)

theorem Reaches.unique {k : Nat} {a b : UInt32} (ha : s.Reaches r k a) (hb : s.Reaches r k b) : a = b := by
  induction ha generalizing b with
  | first =>
    cases hb
    rfl
  | next _ _ _ hh ih =>
    cases hb with
    | next hb _ _ hh' =>
      -- both come from one sector, whose header names only one next
      cases ih hb
      exact hh.next_unique hh'

theorem Reaches.le_sectorCount {k : Nat} {sector : UInt32} (h : s.Reaches r k sector) :
    k ≤ s.sectorCount r.length.toNat := by
  cases h with
  | first => exact Nat.zero_le _
  | next _ hk _ _ => exact lt_sectorCount_iff.mpr hk

def Passes (s : Source) (r : IndexRecord) (k : Nat) (sector : UInt32) : Prop :=
  k * s.payloadSize < r.length.toNat ∧ sector ≠ 0 ∧ ∃ next, s.Holds sector k (s.used r.length.toNat k) next

theorem Reaches.passes {k : Nat} {sector : UInt32} (h : s.Reaches r k sector) {i : Nat} {a : UInt32}
    (hi : i < k) (ha : s.Reaches r i a) : s.Passes r i a := by
  induction h with
  | first => cases hi
  | next hr hk h₀ hh ih =>
    rcases Nat.lt_succ_iff_lt_or_eq.mp hi with hlt | rfl
    · exact ih hlt
    · cases hr.unique ha
      exact ⟨hk, h₀, _, hh⟩

theorem Mismatch.not_holds {k used : Nat} {sector next : UInt32} {field : Sector.Field}
    {expected actual : UInt32} (h : s.Mismatch k (s.headerAt sector) field expected actual) :
    ¬ s.Holds sector k used next := by
  intro hh
  obtain ⟨⟨hg, hc, ha⟩, -⟩ := (s.headerAt_iff hh.fits).mpr hh
  have hc : (s.headerAt sector).chunk.toNat = k % 65536 := by rw [hc, UInt16.toNat_ofNat']
  cases h with
  | group h => exact h hg
  | chunk _ h => exact h hc
  | archive _ _ h => exact h ha

theorem Fault.not_passes {k : Nat} {sector : UInt32} {e : StoreError} (h : s.Fault r k sector e) :
    ¬ s.Passes r k sector := by
  rintro ⟨hk, h₀, next, hh⟩
  cases h with
  | truncated _ h => exact h₀ h
  | outOfBounds _ _ h => exact absurd hh.fits (Nat.not_le.mpr h)
  | mismatch _ _ _ h => exact h.not_holds hh
  | unterminated _ h _ => exact absurd (lt_sectorCount_iff.mpr hk) (h ▸ Nat.lt_irrefl _)

theorem not_fault_end {e : StoreError} : ¬ s.Fault r (s.sectorCount r.length.toNat) 0 e := by
  have hk : ¬ s.sectorCount r.length.toNat * s.payloadSize < r.length.toNat :=
    fun h => Nat.lt_irrefl _ (lt_sectorCount_iff.mpr h)
  intro h
  cases h with
  | truncated h _ => exact hk h
  | outOfBounds h _ _ => exact hk h
  | mismatch h _ _ _ => exact hk h
  | unterminated _ _ h => exact h rfl

theorem Mismatch.unique {k : Nat} {h : Sector.Header} {f f' : Sector.Field} {x x' y y' : UInt32}
    (hm : s.Mismatch k h f x y) (hm' : s.Mismatch k h f' x' y') : f = f' ∧ x = x' ∧ y = y' := by
  cases hm <;> cases hm' <;> first | exact ⟨rfl, rfl, rfl⟩ | contradiction

theorem Fault.unique {k : Nat} {sector : UInt32} {e e' : StoreError} (h : s.Fault r k sector e)
    (h' : s.Fault r k sector e') : e = e' := by
  have hk : k = s.sectorCount r.length.toNat → ¬ k * s.payloadSize < r.length.toNat :=
    fun hk h => absurd (lt_sectorCount_iff.mpr h) (hk ▸ Nat.lt_irrefl _)
  cases h with
  | truncated h₁ h₂ =>
    cases h' with
    | truncated => rfl
    | outOfBounds _ h₃ _ => exact absurd h₂ h₃
    | mismatch _ h₃ _ _ => exact absurd h₂ h₃
    | unterminated _ _ h₃ => exact absurd h₂ h₃
  | outOfBounds h₁ h₂ h₃ =>
    cases h' with
    | truncated _ h₄ => exact absurd h₄ h₂
    | outOfBounds => rfl
    | mismatch _ _ h₄ _ => exact absurd h₄ (Nat.not_le.mpr h₃)
    | unterminated _ h₄ _ => exact absurd h₁ (hk h₄)
  | mismatch h₁ h₂ h₃ h₄ =>
    cases h' with
    | truncated _ h₅ => exact absurd h₅ h₂
    | outOfBounds _ _ h₅ => exact absurd h₃ (Nat.not_le.mpr h₅)
    | mismatch _ _ _ h₅ =>
      obtain ⟨rfl, rfl, rfl⟩ := h₄.unique h₅
      rfl
    | unterminated _ h₅ _ => exact absurd h₁ (hk h₅)
  | unterminated _ h₁ h₂ =>
    cases h' with
    | truncated h₃ _ => exact absurd h₃ (hk h₁)
    | outOfBounds h₃ _ _ => exact absurd h₃ (hk h₁)
    | mismatch h₃ _ _ _ => exact absurd h₃ (hk h₁)
    | unterminated => rfl

theorem Fault.place_unique {k k' : Nat} {a b : UInt32} {e e' : StoreError} (ha : s.Reaches r k a)
    (h : s.Fault r k a e) (hb : s.Reaches r k' b) (h' : s.Fault r k' b e') : k = k' := by
  rcases Nat.lt_trichotomy k k' with hlt | heq | hgt
  · exact absurd (hb.passes hlt ha) h.not_passes
  · exact heq
  · exact absurd (ha.passes hgt hb) h'.not_passes

/-! ## Going along -/

theorem checkHeader_eq_error {sector : UInt32} {k : Nat} {h : Sector.Header} {e : StoreError}
    (he : s.checkHeader sector k h = .error e) :
    ∃ field expected actual, s.Mismatch k h field expected actual ∧
      e = .sectorMismatch s.archive s.group sector field expected actual := by
  have hk : (UInt16.ofNat k).toUInt32 = UInt32.ofNat (k % 65536) := by
    apply UInt32.toNat_inj.mp
    rw [UInt16.toNat_toUInt32, UInt16.toNat_ofNat', UInt32.toNat_ofNat_of_lt' (by show _ < 4294967296; omega)]
  have hc : h.chunk = UInt16.ofNat k ↔ h.chunk.toNat = k % 65536 := by
    rw [← UInt16.toNat_inj, UInt16.toNat_ofNat']
  unfold checkHeader at he
  split at he
  · cases he
    exact ⟨_, _, _, .group ‹_›, rfl⟩
  · rename_i hg
    split at he
    · rename_i hn
      cases he
      exact ⟨_, _, _, .chunk (not_not.mp hg) (mt hc.mpr hn), by rw [hk]⟩
    · rename_i hn
      split at he
      · rename_i ha
        cases he
        exact ⟨_, _, _, .archive (not_not.mp hg) (hc.mp (not_not.mp hn)) ha, rfl⟩
      · cases he

theorem fault_of_readSector {k : Nat} {sector : UInt32} {e : StoreError}
    (hk : k * s.payloadSize < r.length.toNat) (h₀ : sector ≠ 0)
    (he : s.readSector sector k (s.used r.length.toNat k) = .error e) : s.Fault r k sector e := by
  rcases Nat.lt_or_ge s.data.size (start sector + s.headerSize + s.used r.length.toNat k) with hlt | hle
  · rw [s.readSector_of_lt hlt] at he
    cases he
    exact .outOfBounds hk h₀ hlt
  · rw [s.readSector_eq hle] at he
    rcases bind_eq_error he with hc | ⟨_, -, hp⟩
    · obtain ⟨field, expected, actual, hm, rfl⟩ := checkHeader_eq_error hc
      exact .mismatch hk h₀ hle hm
    · cases hp

def EndsWell (s : Source) (r : IndexRecord) : Except StoreError (Array UInt8) → Prop
  | .ok _ => s.Reaches r (s.sectorCount r.length.toNat) 0
  | .error e => ∃ k sector, s.Reaches r k sector ∧ s.Fault r k sector e

/-- From any place that the chain has come to: by induction on the sectors that are still needed. -/
theorem endsWell_walk : ∀ (left k : Nat) (sector : UInt32) (buf : Array UInt8),
    s.Reaches r k sector → 0 < k + left →
    k + left = s.sectorCount r.length.toNat → buf.size = min r.length.toNat (k * s.payloadSize) →
    s.EndsWell r (s.walk r.length.toNat k sector buf left)
  | 0, k, sector, buf, hr, hpos, hleft, _ => by
    rw [walk]
    split
    · rename_i h₀
      subst h₀
      rw [EndsWell, ← hleft]
      exact hr
    · rename_i h₀
      exact ⟨k, sector, hr, .unterminated hpos hleft h₀⟩
  | left + 1, k, sector, buf, hr, hpos, hleft, hb => by
    have hk : k * s.payloadSize < r.length.toNat := lt_sectorCount_iff.mp (by omega)
    rw [walk, s.min_eq_used hb]
    by_cases h₀ : sector = 0
    · rw [if_pos h₀, hb, Nat.min_eq_right (Nat.le_of_lt hk)]
      exact ⟨k, sector, hr, .truncated hk h₀⟩
    rw [if_neg h₀]
    cases hs : s.readSector sector k (s.used r.length.toNat k) with
    | error e => exact ⟨k, sector, hr, fault_of_readSector hk h₀ hs⟩
    | ok p =>
      obtain ⟨bytes, next⟩ := p
      obtain ⟨hh, hp⟩ := s.readSector_eq_ok_iff.mp hs
      refine endsWell_walk left (k + 1) next (buf ++ bytes) (hr.next hk h₀ hh) (by omega) (by omega) ?_
      exact s.size_append hb (s.size_of_holds hh hp)

theorem Fault.length_ne_zero {k : Nat} {sector : UInt32} {e : StoreError} (h : s.Fault r k sector e) :
    r.length ≠ 0 := by
  intro h₀
  have hn : r.length.toNat = 0 := congrArg UInt32.toNat h₀
  cases h with
  | truncated hk _ => omega
  | outOfBounds hk _ _ => omega
  | mismatch hk _ _ _ => omega
  | unterminated hpos hk _ =>
    have := lt_sectorCount_iff.mp (hk ▸ hpos)
    omega

theorem not_fault_of_reaches_end (h : s.Reaches r (s.sectorCount r.length.toNat) 0) {k : Nat}
    {sector : UInt32} {e : StoreError} (hr : s.Reaches r k sector) : ¬ s.Fault r k sector e := by
  intro hf
  rcases Nat.lt_or_eq_of_le hr.le_sectorCount with hlt | rfl
  · exact hf.not_passes (h.passes hlt hr)
  · cases h.unique hr
    exact not_fault_end hf

theorem read_eq_error_iff {e : StoreError} :
    s.read r = .error e ↔ ∃ k sector, s.Reaches r k sector ∧ s.Fault r k sector e := by
  unfold read
  by_cases h₀ : r.length = 0
  · rw [if_pos h₀]
    constructor
    · intro h
      cases h
    · rintro ⟨k, sector, -, hf⟩
      exact absurd h₀ hf.length_ne_zero
  rw [if_neg h₀]
  have hpos : 0 < s.sectorCount r.length.toNat := s.sectorCount_pos fun h => h₀ (UInt32.toNat_inj.mp h)
  have hw := endsWell_walk (s.sectorCount r.length.toNat) 0 r.sector #[] .first (by omega)
    (Nat.zero_add _) (by simp)
  cases hs : s.walk r.length.toNat 0 r.sector #[] (s.sectorCount r.length.toNat) with
  | ok out =>
    rw [hs] at hw
    constructor
    · intro h
      cases h
    · rintro ⟨k, sector, hr, hf⟩
      exact absurd hf (not_fault_of_reaches_end hw hr)
  | error e' =>
    rw [hs] at hw
    obtain ⟨k, sector, hr, hf⟩ := hw
    constructor
    · intro h
      cases h
      exact ⟨k, sector, hr, hf⟩
    · rintro ⟨k', sector', hr', hf'⟩
      cases hf.place_unique hr hr' hf'
      cases hr.unique hr'
      rw [hf.unique hf']
      rfl

/-! ## What is not looked at -/

theorem isSome_part? {k : Nat} {sector : UInt32} :
    (s.part? r k sector).isSome ↔ start sector + s.headerSize + s.used r.length.toNat k ≤ s.data.size := by
  unfold part? Bytes.slice?
  rw [Array.length_toList]
  split
  · exact iff_of_true rfl (by omega)
  · exact iff_of_false (by simp) (by omega)

theorem part?_of_le {k : Nat} {sector : UInt32}
    (h : start sector + s.headerSize + s.used r.length.toNat k ≤ s.data.size) :
    s.part? r k sector =
      some (s.slice (start sector) s.headerSize ++ s.payload sector (s.used r.length.toNat k)) := by
  rw [part?, Bytes.slice?_extract (by omega) h, payload, ← slice_add, slice, Nat.add_assoc]

section
variable {data : Array UInt8}

theorem readSector_congr {k : Nat} {sector : UInt32}
    (h : { s with data }.part? r k sector = s.part? r k sector) :
    { s with data }.readSector sector k (s.used r.length.toNat k) =
      s.readSector sector k (s.used r.length.toNat k) := by
  have hfits : (s.part? r k sector).isSome ↔
      start sector + s.headerSize + s.used r.length.toNat k ≤ data.size := by
    rw [← h]
    exact isSome_part?
  rw [isSome_part?] at hfits
  rcases Nat.lt_or_ge s.data.size (start sector + s.headerSize + s.used r.length.toNat k) with hlt | hle
  · rw [s.readSector_of_lt hlt]
    exact readSector_of_lt { s with data } (Nat.not_le.mp (mt hfits.mpr (Nat.not_le.mpr hlt)))
  · have hle' := hfits.mp hle
    have hd : start sector + s.headerSize ≤ data.size := by omega
    have hp := h.symm.trans (part?_of_le (s := { s with data }) hle')
    rw [part?_of_le hle, Option.some.injEq] at hp
    have hlen : (s.slice (start sector) s.headerSize).length =
        ({ s with data }.slice (start sector) s.headerSize).length :=
      (s.length_slice (by omega)).trans (length_slice { s with data } hd).symm
    obtain ⟨hhead, hpay⟩ := List.append_inj hp hlen
    have hheader : s.headerAt sector = { s with data }.headerAt sector := by
      have h₁ := s.header_slice sector (by omega)
      rw [hhead] at h₁
      exact Except.ok.inj (h₁.symm.trans (header_slice { s with data } sector hd))
    rw [s.readSector_eq hle, hheader, hpay]
    exact readSector_eq { s with data } hle'

theorem walk_congr (h : ∀ k sector, s.Reaches r k sector → k * s.payloadSize < r.length.toNat → sector ≠ 0 →
    { s with data }.part? r k sector = s.part? r k sector) :
    ∀ (left k : Nat) (sector : UInt32) (buf : Array UInt8), s.Reaches r k sector →
      k + left = s.sectorCount r.length.toNat → buf.size = min r.length.toNat (k * s.payloadSize) →
      { s with data }.walk r.length.toNat k sector buf left = s.walk r.length.toNat k sector buf left
  | 0, _, _, _, _, _, _ => rfl
  | left + 1, k, sector, buf, hr, hleft, hb => by
    have hk : k * s.payloadSize < r.length.toNat := lt_sectorCount_iff.mp (by omega)
    have hu := s.min_eq_used hb
    have hu' : min (r.length.toNat - buf.size) { s with data }.payloadSize = s.used r.length.toNat k := hu
    rw [walk, walk]
    by_cases h₀ : sector = 0
    · rw [if_pos h₀, if_pos h₀]
      rfl
    rw [if_neg h₀, if_neg h₀, hu, hu', readSector_congr (h k sector hr hk h₀)]
    cases hs : s.readSector sector k (s.used r.length.toNat k) with
    | error e => rfl
    | ok p =>
      obtain ⟨bytes, next⟩ := p
      obtain ⟨hh, hp⟩ := s.readSector_eq_ok_iff.mp hs
      exact walk_congr h left (k + 1) next (buf ++ bytes) (hr.next hk h₀ hh) (by omega)
        (s.size_append hb (s.size_of_holds hh hp))

theorem read_congr (h : ∀ k sector, s.Reaches r k sector → k * s.payloadSize < r.length.toNat → sector ≠ 0 →
    { s with data }.part? r k sector = s.part? r k sector) : { s with data }.read r = s.read r := by
  have hw := walk_congr h (s.sectorCount r.length.toNat) 0 r.sector #[] .first (Nat.zero_add _) (by simp)
  unfold read
  rw [← hw]
  rfl

end

end Js5.SectorChain.Source

namespace Js5.DiskStore

/-- **Chain errors name the first fault.** Reading a record fails exactly if somewhere along its chain there
is a fault; there is no more than one such place, and its fault is the error. Sectors that are not needed
and bytes behind the part that is used make no difference. -/
theorem readChain_first_fault (s : DiskStore) (archive : UInt8) (group : UInt32) (r : IndexRecord) :
    (∀ e, s.readChain archive group r = .error e ↔ ∃! k, ∃ sector,
      (s.source archive group).Reaches r k sector ∧ (s.source archive group).Fault r k sector e) ∧
    (∀ t : DiskStore, t.layout = s.layout →
      (∀ k sector, (s.source archive group).Reaches r k sector →
        k * (s.source archive group).payloadSize < r.length.toNat → sector ≠ 0 →
        (t.source archive group).part? r k sector = (s.source archive group).part? r k sector) →
      t.readChain archive group r = s.readChain archive group r) := by
  constructor
  · intro e
    refine SectorChain.Source.read_eq_error_iff.trans ⟨?_, ?_⟩
    · rintro ⟨k, sector, hr, hf⟩
      refine ⟨k, ⟨sector, hr, hf⟩, ?_⟩
      rintro k' ⟨sector', hr', hf'⟩
      exact hf'.place_unique hr' hr hf
    · rintro ⟨k, ⟨sector, hr, hf⟩, -⟩
      exact ⟨k, sector, hr, hf⟩
  · intro t hl h
    have ht : t.source archive group = { s.source archive group with data := t.dataFor archive } := by
      unfold source
      rw [hl]
    rw [ht] at h
    have hread := SectorChain.Source.read_congr h
    rw [← ht] at hread
    exact hread

/-- The second of two sectors is another's in every field, which is reported of the first field; the bytes
of the sector that is not in use and those behind the part that is used are of no account. -/
theorem readChain_first_fault_legacy :
    let data (unused : UInt8) (behind : Bytes) : Array UInt8 := (List.replicate 520 unused
      ++ [0, 5, 0, 0, 0, 0, 2, 8] ++ List.replicate 512 1 ++ [0, 6, 0, 9, 0, 0, 9, 3] ++ List.replicate 88 2
      ++ behind).toArray
    let s : DiskStore := ⟨"", .legacy, data 0 [], none, .ofRoot ""⟩
    let t : DiskStore := ⟨"", .legacy, data 255 [1, 2, 3], none, .ofRoot ""⟩
    let r : IndexRecord := ⟨1, 600⟩
    s.readChain 7 5 r = .error (.sectorMismatch 7 5 2 .group 5 6) ∧
      (∃! k, ∃ sector, (s.source 7 5).Reaches r k sector ∧
        (s.source 7 5).Fault r k sector (.sectorMismatch 7 5 2 .group 5 6)) ∧
      t.readChain 7 5 r = .error (.sectorMismatch 7 5 2 .group 5 6) := by
  intro data s t r
  obtain ⟨hfault, hsame⟩ := readChain_first_fault s 7 5 r
  have hholds : (s.source 7 5).Holds 1 0 512 2 :=
    ⟨by decide +kernel, by decide +kernel, by decide +kernel, by decide +kernel, by decide +kernel⟩
  have hnext : (s.source 7 5).Reaches r 1 2 := .next .first (by decide) (by decide) hholds
  have hgroup : ((s.source 7 5).headerAt 2).group = 6 := by decide +kernel
  have hf : (s.source 7 5).Fault r 1 2 (.sectorMismatch 7 5 2 .group 5 6) := by
    rw [← hgroup]
    exact .mismatch (by decide) (by decide) (by decide +kernel) (.group (by rw [hgroup]; decide))
  have hplace : ∃! k, ∃ sector, (s.source 7 5).Reaches r k sector ∧
      (s.source 7 5).Fault r k sector (.sectorMismatch 7 5 2 .group 5 6) := by
    refine ⟨1, ⟨2, hnext, hf⟩, ?_⟩
    rintro k ⟨sector, hr, hf'⟩
    exact hf'.place_unique hr hnext hf
  have hs := (hfault _).mpr hplace
  refine ⟨hs, hplace, (hsame t rfl fun k sector hr hk _ => ?_).trans hs⟩
  have hk : k * 512 < 600 := hk
  have hcases : k = 0 ∨ k = 1 := by omega
  rcases hcases with rfl | rfl
  · rw [hr.unique .first]
    decide +kernel
  · rw [hr.unique hnext]
    decide +kernel

end Js5.DiskStore
