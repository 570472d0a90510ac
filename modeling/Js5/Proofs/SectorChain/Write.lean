import Js5.Proofs.SectorChain

/-! # The sectors that are written for a group hold the group, wherever in a data file they stand -/

namespace Js5

namespace Sector

theorem length_writeHeader (layout : Layout) (archive : UInt8) (group : UInt32) (chunk next : Nat) :
    (writeHeader layout archive group chunk next).length = headerSize group := by
  rw [headerSize_eq, writeHeader]
  simp only [List.length_append, Bytes.length_ofNat, List.length_singleton, Nat.add_assoc]

theorem headerSize_add_payloadSize (group : UInt32) : headerSize group + payloadSize group = size := by
  unfold payloadSize headerSize size
  split <;> omega

theorem toNat_lt_idWidth (group : UInt32) : group.toNat < 256 ^ idWidth group := by
  unfold idWidth
  split
  · assumption
  · exact group.toNat_lt

end Sector

namespace SectorChain

section
variable {α : Type}

theorem flatMap_take_drop (l : List α) (k n : Nat) :
    (List.range n).flatMap (fun i => (l.drop (i * k)).take k) = l.take (n * k) := by
  induction n with
  | zero => simp
  | succ n ih =>
    rw [List.range_succ, List.flatMap_append, ih, Nat.succ_mul, List.take_add]
    simp

theorem length_flatMap_range {f : Nat → List α} {k n : Nat} (h : ∀ i < n, (f i).length = k) :
    ((List.range n).flatMap f).length = k * n := by
  induction n with
  | zero => rfl
  | succ n ih =>
    rw [List.range_succ, List.flatMap_append, List.length_append, ih fun i hi => h i (by omega)]
    simp [h n (by omega), Nat.mul_succ]

theorem flatMap_range_split (f : Nat → List α) {i n : Nat} (h : i < n) :
    ∃ behind, (List.range n).flatMap f = (List.range i).flatMap f ++ (f i ++ behind) := by
  obtain ⟨k, rfl⟩ : ∃ k, n = i + (1 + k) := ⟨n - i - 1, by omega⟩
  refine ⟨(List.range k).flatMap fun j => f (i + (1 + j)), ?_⟩
  simp only [List.range_add, List.range_one, List.cons_append, List.nil_append, List.map_cons,
    Nat.add_zero, List.map_map, List.flatMap_append, List.flatMap_cons, List.flatMap_map,
    Function.comp_apply]

end

variable (layout : Layout) (archive : UInt8) (group : UInt32) (packed : Bytes) (first : Nat)

theorem room_eq : room group = Sector.payloadSize group := by
  unfold room
  split
  · exact (Sector.payloadSize_of_lt ‹_›).symm
  · exact (Sector.payloadSize_of_le (Nat.le_of_not_lt ‹_›)).symm

theorem sectors_eq :
    sectors group packed = (packed.length + Sector.payloadSize group - 1) / Sector.payloadSize group := by
  unfold sectors
  rw [room_eq]

theorem length_chunk (i : Nat) :
    (chunk group packed i).length =
      min (Sector.payloadSize group) (packed.length - i * Sector.payloadSize group) := by
  simp [chunk, room_eq]

theorem length_sector (i : Nat) : (sector layout archive group packed first i).length = Sector.size := by
  have hs := Sector.headerSize_add_payloadSize group
  simp only [sector, List.length_append, List.length_replicate, Sector.length_writeHeader, length_chunk]
  omega

theorem length_write :
    (write layout archive group packed first).length = Sector.size * sectors group packed :=
  length_flatMap_range fun i _ => length_sector layout archive group packed first i

theorem flatMap_chunk : (List.range (sectors group packed)).flatMap (chunk group packed) = packed := by
  have hp := Sector.payloadSize_pos group
  rw [← room_eq] at hp
  have hl : packed.length ≤ sectors group packed * room group := by
    have := Nat.lt_div_mul_add hp (a := packed.length + room group - 1)
    unfold sectors
    omega
  exact (flatMap_take_drop packed (room group) _).trans (List.take_of_length_le hl)

def nextOf (i : Nat) : Nat := if i + 1 = sectors group packed then 0 else first + i + 1

theorem sector_eq (i : Nat) : ∃ zeros, sector layout archive group packed first i =
    Bytes.ofNat (Sector.idWidth group) group.toNat ++
      (Bytes.ofNat 2 i ++ (Bytes.ofNat 3 (nextOf group packed first i) ++
      ([Sector.storedArchive layout archive] ++ chunk group packed i))) ++ zeros := by
  let header := Sector.writeHeader layout archive group i (nextOf group packed first i)
  refine ⟨List.replicate (Sector.size - (header ++ chunk group packed i).length) 0, ?_⟩
  show header ++ _ ++ _ = _
  simp only [header, Sector.writeHeader, List.append_assoc]
  rfl

/-! ## Sectors -/

namespace Source

theorem start_ofNat {n : Nat} (h : n < 2 ^ 32) : start (UInt32.ofNat n) = Sector.size * n := by
  unfold start
  rw [UInt32.toNat_ofNat_of_lt' h]

section
variable {s : Source}

theorem slice_of_append (before : Bytes) {a : Bytes} (behind : Bytes)
    (h : s.data.toList = before ++ (a ++ behind)) : s.slice before.length a.length = a := by
  unfold slice
  rw [Array.toList_extract, List.extract_eq_take_drop, h, List.drop_left, Nat.add_sub_cancel_left,
    List.take_left]

theorem slices_of_append {a b : Bytes} {start m n : Nat} (h : s.slice start (m + n) = a ++ b)
    (ha : a.length = m) : s.slice start m = a ∧ s.slice (start + m) n = b := by
  subst ha
  unfold slice at h ⊢
  simp only [Array.toList_extract, List.extract_eq_take_drop, Nat.add_sub_cancel_left] at h ⊢
  constructor
  · have := congrArg (List.take a.length) h
    simpa only [List.take_take, Nat.min_eq_left (Nat.le_add_right ..), List.take_left] using this
  · have := congrArg (List.drop a.length) h
    simpa only [List.drop_take, Nat.add_sub_cancel_left, List.drop_drop, List.drop_left] using this

end

variable {packed first} {s : Source}

theorem holds_sector {i : Nat} (before behind : Bytes)
    (hd : s.data.toList = before ++ (sector s.layout s.archive s.group packed first i ++ behind))
    (hb : before.length = Sector.size * (first + i)) (hi : i < sectors s.group packed)
    (hn : first + sectors s.group packed ≤ 2 ^ 24) :
    s.Holds (UInt32.ofNat (first + i)) i (s.used packed.length i)
      (UInt32.ofNat (nextOf s.group packed first i)) ∧
      s.payload (UInt32.ofNat (first + i)) (s.used packed.length i) = chunk s.group packed i := by
  have hstart := start_ofNat (n := first + i) (by omega)
  have hnext : nextOf s.group packed first i < 2 ^ 24 := by
    unfold nextOf
    split <;> omega
  have hheader : s.headerSize = Sector.idWidth s.group + 6 := Sector.headerSize_eq s.group
  have hchunk : (chunk s.group packed i).length = s.used packed.length i := length_chunk s.group packed i
  obtain ⟨zeros, hs⟩ := sector_eq s.layout s.archive s.group packed first i
  rw [hs, List.append_assoc] at hd
  have hall := slice_of_append before (zeros ++ behind) hd
  simp only [List.length_append, Bytes.length_ofNat, List.length_singleton, hchunk, hb, ← hstart] at hall
  -- what stands in the sector comes off it one field after the other
  obtain ⟨hid, hall⟩ := slices_of_append hall (Bytes.length_ofNat ..)
  obtain ⟨hnumber, hall⟩ := slices_of_append hall (Bytes.length_ofNat ..)
  obtain ⟨hnextl, hall⟩ := slices_of_append hall (Bytes.length_ofNat ..)
  obtain ⟨harchive, hpayload⟩ := slices_of_append hall rfl
  refine ⟨⟨?_, ?_, ?_, ?_, ?_⟩, ?_⟩
  · rw [hstart, hheader, ← Array.length_toList, hd, ← hb, ← hchunk]
    simp only [List.length_append, Bytes.length_ofNat, List.length_singleton]
    omega
  · rw [number, hid]
    exact Bytes.toNat_ofNat_of_lt (Sector.toNat_lt_idWidth s.group)
  · rw [number, hnumber]
    exact Bytes.toNat_ofNat 2 i
  · rw [number, hnextl, UInt32.toNat_ofNat_of_lt' (by show _ < 4294967296; omega)]
    exact Bytes.toNat_ofNat_of_lt hnext
  · rw [number, harchive]
    simp only [Bytes.toNat, List.foldl_cons, List.foldl_nil, Nat.mul_zero, Nat.zero_add]
  · rw [payload, hheader]
    exact hpayload

end Source

/-! ## Chains -/

def consecutive (first n : Nat) : List UInt32 := (List.range n).map fun i => UInt32.ofNat (first + i)

@[simp] theorem length_consecutive (first n : Nat) : (consecutive first n).length = n := by
  simp [consecutive]

@[simp] theorem getElem_consecutive {first n i : Nat} (h : i < (consecutive first n).length) :
    (consecutive first n)[i] = UInt32.ofNat (first + i) := by
  simp [consecutive]

theorem zipIdx_consecutive (first n : Nat) :
    (consecutive first n).zipIdx = (List.range n).map fun i => (UInt32.ofNat (first + i), i) := by
  apply List.ext_getElem
  · simp
  · intro i h₁ h₂
    simp

theorem next_consecutive {i : Nat} (h : i < sectors group packed) :
    (consecutive first (sectors group packed))[i + 1]?.getD 0 =
      UInt32.ofNat (nextOf group packed first i) := by
  unfold nextOf
  by_cases hi : i + 1 < (consecutive first (sectors group packed)).length
  · have hn : i + 1 ≠ sectors group packed := by
      rw [length_consecutive] at hi
      omega
    rw [List.getElem?_eq_getElem hi, Option.getD_some, getElem_consecutive, if_neg hn]
    rfl
  · rw [List.getElem?_eq_none (Nat.not_lt.mp hi), if_pos (by rw [length_consecutive] at hi; omega)]
    rfl

namespace Source

variable {packed first} {s : Source}

theorem read_write (before behind : Bytes)
    (hd : s.data.toList = before ++ (write s.layout s.archive s.group packed first ++ behind))
    (hb : before.length = Sector.size * first) (hf : 0 < first)
    (hn : first + sectors s.group packed ≤ 2 ^ 24) (hp : packed.length < 2 ^ 32) :
    s.read ⟨UInt32.ofNat first, UInt32.ofNat packed.length⟩ = .ok packed := by
  have hlen : (UInt32.ofNat packed.length).toNat = packed.length := UInt32.toNat_ofNat_of_lt' hp
  have hholds : ∀ i < sectors s.group packed,
      s.Holds (UInt32.ofNat (first + i)) i (s.used packed.length i)
        (UInt32.ofNat (nextOf s.group packed first i)) ∧
        s.payload (UInt32.ofNat (first + i)) (s.used packed.length i) = chunk s.group packed i := by
    -- sector `i` stands behind the `i` sectors before it
    intro i hi
    obtain ⟨rest, hr⟩ := flatMap_range_split (sector s.layout s.archive s.group packed first) hi
    refine holds_sector (before ++ (List.range i).flatMap (sector s.layout s.archive s.group packed first))
      (rest ++ behind) ?_ ?_ hi hn
    · rw [hd, write, hr]
      simp only [List.append_assoc]
    · rw [List.length_append, hb,
        length_flatMap_range fun i _ => length_sector s.layout s.archive s.group packed first i,
        Nat.mul_add]
  refine s.read_eq_ok_iff.mpr ⟨consecutive first (sectors s.group packed), ⟨?_, ?_, ?_, ?_⟩, ?_⟩
  · rw [hlen, length_consecutive]
    exact sectors_eq s.group packed
  · intro h
    rw [getElem_consecutive, Nat.add_zero]
  · intro i h
    rw [length_consecutive] at h
    rw [getElem_consecutive, ne_eq, ← UInt32.toNat_inj,
      UInt32.toNat_ofNat_of_lt' (by show _ < 4294967296; omega)]
    show first + i ≠ 0
    omega
  · intro i h
    rw [length_consecutive] at h
    rw [getElem_consecutive, hlen, next_consecutive s.group packed first h]
    exact (hholds i h).1
  · have hpayload : ∀ i ∈ List.range (sectors s.group packed),
        s.payload (UInt32.ofNat (first + i)) (s.used packed.length i) = chunk s.group packed i :=
      fun i hi => (hholds i (List.mem_range.mp hi)).2
    unfold content
    rw [hlen, zipIdx_consecutive, List.flatMap_map, List.flatMap_def, List.map_congr_left hpayload,
      ← List.flatMap_def, flatMap_chunk]

end Source

end SectorChain

end Js5
