import Js5.Proofs.IndexFile.Rows
import Js5.Proofs.SectorChain.Faults
import Mathlib.Data.List.Nodup

/-!
# Visited sectors

Nothing is remembered of the sectors that were visited. That none is visited twice, and that no two groups
share one, follows from what the headers have to say.
-/

namespace Js5

namespace SectorChain.Source

variable (s : Source)

/-- Follows a chain until all bytes are there, from a place where `buf` holds those of the chunks before
number `chunk`: the sectors that are looked at, and what comes of it. -/
def follow (length chunk : Nat) (sector : UInt32) (buf : Array UInt8) :
    List UInt32 × Except StoreError (Array UInt8) :=
  if _hb : buf.size < length then
    if sector = 0 then ([], .error (.truncatedChain s.archive s.group length buf.size))
    else
      match _hr : s.readSector sector chunk (min (length - buf.size) s.payloadSize) with
      | .error e => ([sector], .error e)
      | .ok (bytes, next) =>
        let (visited, out) := follow length (chunk + 1) next (buf ++ bytes)
        (sector :: visited, out)
  else if length = 0 ∨ sector = 0 then ([], .ok buf)
  else ([], .error (.unterminatedChain s.archive s.group sector))
termination_by length - buf.size
decreasing_by
  obtain ⟨hh, hp⟩ := s.readSector_eq_ok_iff.mp ‹_›
  have hs := s.size_of_holds hh hp
  have hpos : 0 < s.payloadSize := Sector.payloadSize_pos s.group
  rw [Array.size_append]
  omega

variable {s} {length chunk left : Nat} {sector : UInt32} {buf : Array UInt8}

/-! ## Steps -/

theorem follow_end (hb : length ≤ buf.size) : s.follow length chunk sector buf =
    ([], if length = 0 ∨ sector = 0 then .ok buf
      else .error (.unterminatedChain s.archive s.group sector)) := by
  rw [follow, dif_neg (Nat.not_lt.mpr hb)]
  split <;> rfl

theorem follow_zero (hb : buf.size < length) :
    s.follow length chunk 0 buf = ([], .error (.truncatedChain s.archive s.group length buf.size)) := by
  rw [follow, dif_pos hb, if_pos rfl]

theorem follow_of_error (hb : buf.size < length) (h₀ : sector ≠ 0) {e : StoreError}
    (hr : s.readSector sector chunk (min (length - buf.size) s.payloadSize) = .error e) :
    s.follow length chunk sector buf = ([sector], .error e) := by
  rw [follow, dif_pos hb, if_neg h₀]
  split
  · rename_i hr'
    rw [hr] at hr'
    cases hr'
    rfl
  · rename_i hr'
    rw [hr] at hr'
    cases hr'

theorem follow_of_ok (hb : buf.size < length) (h₀ : sector ≠ 0) {bytes : Array UInt8} {next : UInt32}
    (hr : s.readSector sector chunk (min (length - buf.size) s.payloadSize) = .ok (bytes, next)) :
    s.follow length chunk sector buf =
      (sector :: (s.follow length (chunk + 1) next (buf ++ bytes)).1,
        (s.follow length (chunk + 1) next (buf ++ bytes)).2) := by
  rw [follow, dif_pos hb, if_neg h₀]
  split
  · rename_i hr'
    rw [hr] at hr'
    cases hr'
  · rename_i hr'
    rw [hr] at hr'
    cases hr'
    rfl

/-! ## Whole walks -/

/-- With all bytes but those of the last `left` sectors there, no more than `left` sectors are looked at.
What comes of it is what comes of going along so many sectors. -/
theorem follow_eq_walk (h₀ : length ≠ 0) : ∀ (left chunk : Nat) (sector : UInt32) (buf : Array UInt8),
    chunk + left = s.sectorCount length → buf.size = min length (chunk * s.payloadSize) →
    (s.follow length chunk sector buf).2 = s.walk length chunk sector buf left ∧
      (s.follow length chunk sector buf).1.length ≤ left
  | 0, chunk, sector, buf, hl, hb => by
    have hle : length ≤ buf.size := by
      have := s.le_sectorCount_mul length
      rw [← hl, Nat.add_zero] at this
      omega
    rw [follow_end hle, walk]
    refine ⟨?_, Nat.le_refl 0⟩
    by_cases hz : sector = 0
    · rw [if_pos (.inr hz), if_pos hz]
    · rw [if_neg (not_or.mpr ⟨h₀, hz⟩), if_neg hz]
  | left + 1, chunk, sector, buf, hl, hb => by
    have hlt : chunk * s.payloadSize < length := lt_sectorCount_iff.mp (by omega)
    have hsize : buf.size < length := by omega
    rw [walk]
    by_cases hz : sector = 0
    · subst hz
      rw [follow_zero hsize, if_pos rfl]
      exact ⟨rfl, Nat.zero_le _⟩
    rw [if_neg hz]
    cases hr : s.readSector sector chunk (min (length - buf.size) s.payloadSize) with
    | error e =>
      rw [follow_of_error hsize hz hr]
      exact ⟨rfl, Nat.le_add_left 1 left⟩
    | ok p =>
      obtain ⟨bytes, next⟩ := p
      obtain ⟨hh, hp⟩ := s.readSector_eq_ok_iff.mp hr
      rw [s.min_eq_used hb] at hh
      obtain ⟨hw, hv⟩ := follow_eq_walk h₀ left (chunk + 1) next (buf ++ bytes) (by omega)
        (s.size_append hb (s.size_of_holds hh (s.min_eq_used hb ▸ hp)))
      rw [follow_of_ok hsize hz hr]
      exact ⟨hw, Nat.succ_le_succ hv⟩

theorem holds_of_follow {out : Array UInt8} (h : (s.follow length chunk sector buf).2 = .ok out) :
    ∀ p ∈ (s.follow length chunk sector buf).1.zipIdx chunk, ∃ used next, s.Holds p.1 p.2 used next := by
  fun_induction follow s length chunk sector buf with
  | case1 => cases h
  | case2 => cases h
  | case3 chunk sector buf hb h₀ bytes next hr visited rest hf ih =>
    rw [hf] at ih
    rw [List.zipIdx_cons, List.forall_mem_cons]
    exact ⟨⟨_, next, (s.readSector_eq_ok_iff.mp hr).1⟩, ih h⟩
  | case4 => simp
  | case5 => cases h

/-! ## Sectors that are apart -/

/-- The chunk numbers in the headers count up, so that before they start again no sector comes twice. -/
theorem nodup_of_holds {visited : List UInt32}
    (h : ∀ p ∈ visited.zipIdx, ∃ used next, s.Holds p.1 p.2 used next) (hl : visited.length ≤ 65536) :
    visited.Nodup := by
  have hmap : visited.map (fun sector => s.number (start sector + Sector.idWidth s.group) 2) =
      List.range visited.length := by
    have hsnd : (visited.zipIdx).map Prod.snd = List.range visited.length := by
      rw [List.zipIdx_map_snd, List.range_eq_range']
    have hfst : (visited.zipIdx).map Prod.fst = visited := List.zipIdx_map_fst 0 visited
    rw [← hsnd]
    conv_lhs => rw [← hfst]
    rw [List.map_map]
    refine List.map_congr_left fun p hp => ?_
    obtain ⟨used, next, hh⟩ := h p hp
    have hlt : p.2 < visited.length := by
      have := List.mem_map_of_mem (f := Prod.snd) hp
      rw [hsnd] at this
      exact List.mem_range.mp this
    exact hh.chunk.trans (Nat.mod_eq_of_lt (by omega))
  exact List.Nodup.of_map _ (hmap ▸ List.nodup_range)

theorem Holds.owner_unique {t : Source} (hd : t.data = s.data) (hl : t.layout = s.layout)
    (hw : Sector.idWidth t.group = Sector.idWidth s.group) {sector next next' : UInt32}
    {k k' used used' : Nat} (h : s.Holds sector k used next) (h' : t.Holds sector k' used' next') :
    t.archive = s.archive ∧ t.group = s.group := by
  have hn : t.number = s.number := by
    unfold number slice
    rw [hd]
  constructor
  · have ha := h'.archive
    rw [hn, hw, hl, h.archive] at ha
    exact (Sector.storedArchive_inj.mp (UInt8.toNat_inj.mp ha)).symm
  · have hg := h'.group
    rw [hn, hw, h.group] at hg
    exact UInt32.toNat_inj.mp hg.symm

end SectorChain.Source

namespace IndexFile

theorem length_lt_of_parse {archive : UInt8} {b : Bytes} {f : IndexFile} (h : parse archive b = .ok f)
    {r : IndexRecord} (hr : r ∈ f.records) : r.length.toNat < 2 ^ 24 := by
  rw [parse_eq] at h
  split at h
  · cases h
    obtain ⟨place, hp, rfl⟩ := List.mem_map.mp (List.mem_toArray.mp hr)
    exact (fits_row (succ_mul_le hp)).length
  · cases h

end IndexFile

namespace DiskStore

open SectorChain (Source)

variable (s : DiskStore) (archive : UInt8) (group : UInt32) (r : IndexRecord)

def follow : List UInt32 × Except StoreError (Array UInt8) :=
  (s.source archive group).follow r.length.toNat 0 r.sector #[]

def visits : List UInt32 := (s.follow archive group r).1

variable {s archive group r}

/-- A walk that is ended by its length needs no more than the length to end it. -/
theorem readChain_eq_follow : s.readChain archive group r = Array.toList <$> (s.follow archive group r).2 ∧
    (s.visits archive group r).length ≤ (s.source archive group).sectorCount r.length.toNat := by
  have hread : s.readChain archive group r = (s.source archive group).read r := rfl
  rw [hread]
  unfold visits follow Source.read
  by_cases h₀ : r.length = 0
  · have hn : r.length.toNat = 0 := congrArg UInt32.toNat h₀
    rw [if_pos h₀, Source.follow_end (hn ▸ Nat.zero_le _), if_pos (.inl hn)]
    exact ⟨rfl, Nat.zero_le _⟩
  · rw [if_neg h₀]
    have hn : r.length.toNat ≠ 0 := fun h => h₀ (UInt32.toNat_inj.mp h)
    obtain ⟨hw, hv⟩ := Source.follow_eq_walk (s := s.source archive group) hn _ 0 r.sector #[]
      (Nat.zero_add _) (by simp)
    rw [hw]
    exact ⟨rfl, hv⟩

theorem holds_of_readChain {buf : Bytes} (h : s.readChain archive group r = .ok buf) :
    ∀ p ∈ (s.visits archive group r).zipIdx,
      ∃ used next, (s.source archive group).Holds p.1 p.2 used next := by
  rw [readChain_eq_follow.1] at h
  obtain ⟨out, ho, -⟩ := map_eq_ok h
  exact Source.holds_of_follow ho

theorem exists_holds_of_mem_visits {buf : Bytes} (h : s.readChain archive group r = .ok buf)
    {sector : UInt32} (hs : sector ∈ s.visits archive group r) :
    ∃ k used next, (s.source archive group).Holds sector k used next := by
  rw [← List.zipIdx_map_fst 0 (s.visits archive group r)] at hs
  obtain ⟨p, hp, rfl⟩ := List.mem_map.mp hs
  exact ⟨p.2, holds_of_readChain h p hp⟩

/-- **Chains are bounded and apart.** Reading a record visits no more sectors than its length takes; when it
succeeds, none is visited twice, nor for two groups whose headers are of one form. -/
theorem visits_bounded_and_apart (s : DiskStore) (archive : UInt8) (group : UInt32) (r : IndexRecord) :
    (s.readChain archive group r = Array.toList <$> (s.follow archive group r).2 ∧
      (s.visits archive group r).length ≤
        (r.length.toNat + Sector.payloadSize group - 1) / Sector.payloadSize group) ∧
    (∀ buf, s.readChain archive group r = .ok buf → r.length.toNat ≤ 65536 * Sector.payloadSize group →
      (s.visits archive group r).Nodup) ∧
    (∀ b f, IndexFile.parse archive b = .ok f → r ∈ f.records →
      r.length.toNat ≤ 65536 * Sector.payloadSize group) ∧
    ∀ (t : DiskStore) (archive' : UInt8) (group' : UInt32) (r' : IndexRecord) (buf buf' : Bytes),
      t.layout = s.layout → t.dataFor archive' = s.dataFor archive → (archive', group') ≠ (archive, group) →
      (group' < 65536 ↔ group < 65536) →
      s.readChain archive group r = .ok buf → t.readChain archive' group' r' = .ok buf' →
        (s.visits archive group r).Disjoint (t.visits archive' group' r') := by
  refine ⟨readChain_eq_follow, fun buf h hl => ?nodup, fun b f hf hr => ?length, ?disjoint⟩
  case nodup =>
    refine Source.nodup_of_holds (holds_of_readChain h) (Nat.le_trans readChain_eq_follow.2 ?_)
    refine Nat.le_of_lt_succ (Nat.lt_of_not_le fun hc => ?_)
    exact absurd (Source.lt_sectorCount_iff.mp hc) (Nat.not_lt.mpr hl)
  case length =>
    have := IndexFile.length_lt_of_parse hf hr
    unfold Sector.payloadSize Sector.headerSize Sector.size
    split <;> omega
  case disjoint =>
    intro t archive' group' r' buf buf' hl hd hne hw h h' sector hs ht
    obtain ⟨k, used, next, hh⟩ := exists_holds_of_mem_visits h hs
    obtain ⟨k', used', next', hh'⟩ := exists_holds_of_mem_visits h' ht
    have hdata : (t.source archive' group').data = (s.source archive group).data := hd
    have hwidth : Sector.idWidth group' = Sector.idWidth group := if_congr hw rfl rfl
    obtain ⟨ha, hg⟩ := hh.owner_unique hdata hl hwidth hh'
    exact hne (Prod.ext ha hg)

/-- Two groups of one archive whose sectors lie between each other. -/
theorem visits_bounded_and_apart_interleaved :
    let header (group chunk next : UInt8) : Bytes := [0, group, 0, chunk, 0, 0, next, 2]
    let data : Array UInt8 := (List.replicate 520 0 ++ (header 5 0 3 ++ List.replicate 512 1)
      ++ (header 6 0 0 ++ List.replicate 512 7) ++ (header 5 1 0 ++ List.replicate 88 2)).toArray
    let s : DiskStore := ⟨"", .js5, data, none, .ofRoot ""⟩
    s.readChain 2 5 ⟨1, 600⟩ = .ok ((s.source 2 5).content 600 0 [1, 3]) ∧
      s.readChain 2 6 ⟨2, 3⟩ = .ok [7, 7, 7] ∧
      (s.visits 2 5 ⟨1, 600⟩).length ≤ 2 ∧ (s.visits 2 5 ⟨1, 600⟩).Nodup ∧
      (s.visits 2 5 ⟨1, 600⟩).Disjoint (s.visits 2 6 ⟨2, 3⟩) := by
  intro header data s
  have hfirst : (s.source 2 5).Holds 1 0 512 3 :=
    ⟨by decide +kernel, by decide +kernel, by decide +kernel, by decide +kernel, by decide +kernel⟩
  have hlast : (s.source 2 5).Holds 3 1 88 0 :=
    ⟨by decide +kernel, by decide +kernel, by decide +kernel, by decide +kernel, by decide +kernel⟩
  have hchain : (s.source 2 5).IsChain ⟨1, 600⟩ [1, 3] := by
    refine ⟨by decide, fun _ => rfl, fun i hi => ?_, fun i hi => ?_⟩
    · have hne : ∀ sector ∈ ([1, 3] : List UInt32), sector ≠ 0 := by simp
      exact hne _ (List.getElem_mem hi)
    · have hfull : min (s.source 2 5).payloadSize (600 - 0 * (s.source 2 5).payloadSize) = 512 := rfl
      have hrest : min (s.source 2 5).payloadSize (600 - 1 * (s.source 2 5).payloadSize) = 88 := rfl
      match i, hi with
      | 0, _ => exact hfull.symm ▸ hfirst
      | 1, _ => exact hrest.symm ▸ hlast
  have hlong : s.readChain 2 5 ⟨1, 600⟩ = .ok ((s.source 2 5).content 600 0 [1, 3]) :=
    Source.read_eq_ok_iff _ |>.mpr ⟨_, hchain, rfl⟩
  have hshort : s.readChain 2 6 ⟨2, 3⟩ = .ok [7, 7, 7] := by decide +kernel
  obtain ⟨⟨-, hbound⟩, hnodup, -, hapart⟩ := visits_bounded_and_apart s 2 5 ⟨1, 600⟩
  exact ⟨hlong, hshort, hbound, hnodup _ hlong (by decide),
    hapart s 2 6 ⟨2, 3⟩ _ _ rfl rfl (by decide) (by decide) hlong hshort⟩

end DiskStore

end Js5
