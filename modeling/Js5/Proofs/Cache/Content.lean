import Js5.Proofs.Cache.Layout
import Js5.Proofs.Envelope
import Js5.Proofs.ReferenceIndex
import Js5.Proofs.Stripes.Files

/-! # The content of a written cache: every number fits the field that it is written to -/

namespace Js5

theorem find?_of_unique {α : Type} {p : α → Bool} {l : List α} {x : α} (hm : x ∈ l) (hp : p x = true)
    (hu : ∀ y ∈ l, p y = true → y = x) : l.find? p = some x := by
  cases h : l.find? p with
  | none => exact absurd hp (List.find?_eq_none.mp h x hm)
  | some y => rw [hu y (List.mem_of_find?_eq_some h) (List.find?_some h)]

namespace ReferenceIndex

/-! ## Lengths -/

theorem le_length_writeId (wide : Bool) (id : Nat) : 1 ≤ (writeId wide id).length := by
  unfold writeId
  split <;> simp

theorem le_length_writeIds (wide : Bool) (ids : List UInt32) (last : Nat) :
    ids.length ≤ (writeIds wide last ids).length := by
  induction ids generalizing last with
  | nil => exact Nat.le_refl _
  | cons id ids ih =>
    have := ih id.toNat
    have := le_length_writeId wide (id.toNat - last)
    simp only [writeIds, List.length_append, List.length_cons]
    omega

theorem length_groups_le (index : ReferenceIndex) : index.groups.length ≤ index.toBytes.length := by
  have := le_length_writeIds (isWide index.protocol) (index.groups.map Group.id) 0
  rw [List.length_map] at this
  unfold toBytes
  simp only [List.length_append]
  omega

theorem length_fileIds_le (index : ReferenceIndex) {g : Group} (hg : g ∈ index.groups) :
    g.fileIds.length ≤ index.toBytes.length := by
  have h₁ := le_length_writeIds (isWide index.protocol) g.fileIds 0
  have h₂ := (List.sublist_flatten_of_mem (List.mem_map_of_mem
    (f := fun g : Group => writeIds (isWide index.protocol) 0 g.fileIds) hg)).length_le
  rw [← List.flatMap_def] at h₂
  have h₃ : (index.groups.flatMap fun g => writeIds (isWide index.protocol) 0 g.fileIds).length ≤
      index.toBytes.length := by
    unfold toBytes
    simp only [List.length_append, writeColumn, if_true]
    omega
  omega

/-! ## Ascending ids -/

theorem steps_of_pairwise {bound : Nat} : ∀ {ids : List UInt32} {last : Nat}, (∀ id ∈ ids, last ≤ id.toNat) →
    ids.Pairwise (· < ·) → (∀ id ∈ ids, id.toNat < bound) → Steps bound last ids
  | [], _, _, _, _ => trivial
  | id :: ids, last, hl, hp, hb => by
    rw [List.pairwise_cons] at hp
    have hid := hb id (List.mem_cons_self ..)
    refine ⟨hl id (List.mem_cons_self ..), by omega, ?_⟩
    apply steps_of_pairwise ?_ hp.2 fun id' h => hb id' (List.mem_cons_of_mem _ h)
    intro id' h
    exact Nat.le_of_lt (UInt32.lt_iff_toNat_lt.mp (hp.1 id' h))

theorem idsFit_of_pairwise {wide : Bool} {ids : List UInt32} (hl : ids.length < idBound wide)
    (hp : ids.Pairwise (· < ·)) (hb : ∀ id ∈ ids, id.toNat < idBound wide) : IdsFit wide ids :=
  ⟨hl, hp, steps_of_pairwise (fun _ _ => Nat.zero_le _) hp hb⟩

end ReferenceIndex

/-! ## Groups -/

namespace GroupContent

variable (compress : Compression → Bytes → Bytes) (g : GroupContent)

def data : Bytes := Stripes.ofFiles g.stripes (g.files.map Prod.snd)

def trailer : Bytes :=
  match g.version with
  | none => []
  | some v => Bytes.ofNat 2 v.toNat

/-- A group that can be kept: every number fits the field that it is written to, and the decoder of the
compression gives back the data. An archive of groups is not the reference archive. -/
structure Fits : Prop where
  archive : g.archive ≠ Store.referenceArchive
  id : g.id.toNat < 2 ^ 31
  files : g.files ≠ []
  ascending : (g.files.map Prod.fst).Pairwise (· < ·)
  fileIds : ∀ file ∈ g.files, file.1.toNat < 2 ^ 31
  stripes : 0 < g.stripes ∧ g.stripes < 256
  name : ∀ n, g.name = some n → nameHash n ≠ 0xffffffff
  key : ∀ k, g.key = some k → k.isZero = false
  data : g.data.length < 2 ^ 31
  packed : (g.packed compress).length < 2 ^ 24
  recovers : Envelope.Recovers compress g.compression g.data

theorem envelope_eq : g.envelope compress =
    Envelope.write g.compression (compress g.compression g.data) g.data.length g.key := rfl

theorem packed_eq : g.packed compress = g.envelope compress ++ g.trailer := rfl

theorem le_length_packed : (compress g.compression g.data).length < (g.packed compress).length := by
  rw [packed_eq, List.length_append, envelope_eq, Envelope.length_write]
  unfold Envelope.headerSize
  omega

@[simp] theorem id_reference : (g.reference compress).id = g.id := rfl

theorem fileIds_reference : (g.reference compress).fileIds = g.files.map Prod.fst := by
  unfold reference ReferenceIndex.Group.fileIds
  simp

variable {compress g}

theorem Fits.files_inj (h : g.Fits compress) : ∀ a ∈ g.files, ∀ b ∈ g.files, a.1 = b.1 → a = b :=
  List.inj_on_of_nodup_map (h.ascending.imp fun hab => UInt32.ne_of_lt hab)

theorem Fits.unpack (h : g.Fits compress) {a : Archive} {index : ReferenceIndex} (hi : a.index = some index)
    (hl : index.hasLengths = false) (hu : index.hasUncompressedChecksums = false) :
    a.unpack (some (g.reference compress)) g.key (g.packed compress) = .ok g.data := by
  have hp : (compress g.compression g.data).length < 2 ^ 31 := by
    have := g.le_length_packed compress
    have := h.packed
    omega
  have hd := Envelope.decode_write h.key hp h.data h.recovers g.trailer
  rw [← envelope_eq, ← packed_eq] at hd
  have hc : a.verifyPacked (g.reference compress) (g.packed compress) = .ok () := by
    have ht : (g.packed compress).take (Envelope.packedLength (g.packed compress)) = g.envelope compress := by
      rw [packed_eq, envelope_eq, Envelope.packedLength_write _ _ hp, List.take_left]
    unfold Archive.verifyPacked Archive.checkChecksum
    rw [ht]
    cases a.verify <;> simp [reference]
  have hv : a.verifyData index (g.reference compress) g.data = .ok () := by
    unfold Archive.verifyData
    rw [hl, hu]
    cases a.verify <;> rfl
  unfold Archive.unpack
  simp only [hc, hd, hi, Except.mapError]
  show (a.verifyData index (g.reference compress) g.data >>= fun _ => pure g.data) = .ok g.data
  rw [hv]
  rfl

theorem Fits.split (h : g.Fits compress) :
    Stripes.split g.data (g.reference compress).fileIds = .ok g.files := by
  rw [fileIds_reference]
  exact Stripes.split_ofFiles h.stripes.1 h.stripes.2 h.files h.data

theorem Fits.file (h : g.Fits compress) {f : UInt32 × Bytes} (hf : f ∈ g.files) :
    Stripes.file g.data (g.reference compress).fileIds f.1 = .ok f.2 := by
  rw [fileIds_reference]
  exact Stripes.file_ofFiles h.stripes.1 h.stripes.2 h.data h.files_inj hf

theorem file_of_notMem (compress : Compression → Bytes → Bytes) (hl : 2 ≤ g.files.length) {id : UInt32}
    (hid : ∀ file ∈ g.files, file.1 ≠ id) :
    Stripes.file g.data (g.reference compress).fileIds id = .error (.fileOutOfRange id g.files.length) := by
  have hm : id ∉ g.files.map Prod.fst := by
    intro hm
    obtain ⟨file, hf, he⟩ := List.mem_map.mp hm
    exact hid file hf he
  rw [fileIds_reference, Stripes.file_of_notMem (by simpa using hl) hm, List.length_map]

end GroupContent

/-! ## Reference indexes -/

namespace ReferenceIndex

variable {compress : Compression → Bytes → Bytes} {groups : List GroupContent}

theorem mem_ofGroups {r : Group} :
    r ∈ (ofGroups compress groups).groups ↔ ∃ g ∈ groups, g.reference compress = r := by
  unfold ofGroups
  simp

theorem length_ofGroups : (ofGroups compress groups).groups.length = groups.length := by
  unfold ofGroups
  simp

theorem hasNames_ofGroups : (ofGroups compress groups).hasNames = groups.any fun g => g.name.isSome := rfl

theorem protocol_ofGroups (compress : Compression → Bytes → Bytes) (groups : List GroupContent) :
    (ofGroups compress groups).protocol = 6 ∨ (ofGroups compress groups).protocol = 7 := by
  unfold ofGroups
  simp only
  split
  · exact .inr rfl
  · exact .inl rfl

theorem lt_of_ofGroups (h : isWide (ofGroups compress groups).protocol = false) :
    ∀ g ∈ groups, g.id.toNat < 2 ^ 16 ∧ ∀ file ∈ g.files, file.1.toNat < 2 ^ 16 := by
  have hw : (groups.any fun g =>
      decide (0x10000 ≤ g.id) || g.files.any fun file => decide (0x10000 ≤ file.1)) = false := by
    unfold ofGroups at h
    simp only at h
    split at h
    · cases h
    · rename_i hw
      exact Bool.eq_false_iff.mpr hw
  have hlt : ∀ id : UInt32, ¬ 0x10000 ≤ id → id.toNat < 2 ^ 16 := fun id h => by
    rw [UInt32.le_iff_toNat_le] at h
    exact Nat.lt_of_not_le h
  intro g hg
  have hg := List.any_eq_false.mp hw g hg
  rw [Bool.or_eq_true, not_or] at hg
  refine ⟨hlt _ (by simpa using hg.1), fun file hf => hlt _ ?_⟩
  have := List.any_eq_false.mp (Bool.eq_false_iff.mpr hg.2) file hf
  simpa using this

structure Indexable (compress : Compression → Bytes → Bytes) (groups : List GroupContent) : Prop where
  each : ∀ g ∈ groups, g.Fits compress
  nodup : (groups.map GroupContent.id).Nodup
  names : ∀ g ∈ groups, ∀ h ∈ groups, ∀ m n, g.name = some m → h.name = some n →
    nameHash m = nameHash n → g = h
  counts : (ofGroups compress groups).protocol = 7 ∨ groups.length < 2 ^ 16 ∧
    ∀ g ∈ groups, g.files.length < 2 ^ 16
  length : (ofGroups compress groups).toBytes.length < 2 ^ 24

theorem lt_idBound {wide : Bool} {n : Nat} (hw : n < 2 ^ 31) (hn : wide = false → n < 2 ^ 16) :
    n < idBound wide := by
  cases wide with
  | true => exact hw
  | false => exact hn rfl

theorem get?_ofGroups_eq_none {id : UInt32} (h : ∀ g ∈ groups, g.id ≠ id) :
    (ofGroups compress groups).get? id = none := by
  unfold get?
  rw [List.find?_eq_none]
  intro r hr
  obtain ⟨g, hg, rfl⟩ := mem_ofGroups.mp hr
  simp [h g hg]

theorem toUInt32_nameHash (g : GroupContent) :
    (g.reference compress).nameHash.toUInt32 = (g.name.map nameHash).getD 0xffffffff := by
  unfold GroupContent.reference
  cases g.name with
  | none => rfl
  | some n => simp

theorem named?_ofGroups_eq_none {hash : UInt32} (hh : hash ≠ 0xffffffff)
    (h : ∀ g ∈ groups, ∀ n, g.name = some n → nameHash n ≠ hash) :
    (ofGroups compress groups).named? hash = none := by
  have hfind : (ofGroups compress groups).groups.reverse.find?
      (fun r => decide (r.nameHash.toUInt32 = hash)) = none := by
    rw [List.find?_eq_none]
    intro r hr
    rw [List.mem_reverse] at hr
    obtain ⟨g, hg, rfl⟩ := mem_ofGroups.mp hr
    rw [toUInt32_nameHash]
    cases hn : g.name with
    | none => simp [hh.symm]
    | some n => simp [h g hg n hn]
  unfold named?
  rw [hfind]
  exact ite_self none

variable (h : Indexable compress groups)
include h

theorem Indexable.counts_narrow (hw : isWide (ofGroups compress groups).protocol = false) :
    groups.length < 2 ^ 16 ∧ ∀ g ∈ groups, g.files.length < 2 ^ 16 := by
  rcases h.counts with hp | hc
  · rw [hp] at hw
    cases hw
  · exact hc

theorem Indexable.ascending : ((ofGroups compress groups).groups.map Group.id).Pairwise (· < ·) := by
  have hs :
      (groups.mergeSort fun g h => decide (g.id ≤ h.id)).Pairwise fun g h => decide (g.id ≤ h.id) = true := by
    apply List.pairwise_mergeSort
    · intro a b c hab hbc
      simpa using UInt32.le_trans (of_decide_eq_true hab) (of_decide_eq_true hbc)
    · intro a b
      simpa using UInt32.le_total a.id b.id
  have hn : (groups.mergeSort fun g h => decide (g.id ≤ h.id)).Pairwise fun g h => g.id ≠ h.id := by
    have hperm := (List.mergeSort_perm groups fun g h => decide (g.id ≤ h.id)).map GroupContent.id
    have := hperm.nodup_iff.mpr h.nodup
    exact List.pairwise_map.mp this
  unfold ofGroups
  rw [List.map_map, List.pairwise_map]
  refine (hs.and hn).imp fun hab => ?_
  exact UInt32.lt_of_le_of_ne (of_decide_eq_true hab.1) hab.2

theorem Indexable.fits : (ofGroups compress groups).Fits where
  protocol := .inr (protocol_ofGroups compress groups)
  version hv := by
    rcases protocol_ofGroups compress groups with hp | hp
    · rw [hp] at hv
      cases hv
    · rw [hp] at hv
      cases hv
  ids := by
    apply idsFit_of_pairwise ?_ h.ascending ?_
    · have hl := (ofGroups compress groups).length_groups_le
      have := h.length
      rw [List.length_map]
      rw [length_ofGroups] at hl ⊢
      exact lt_idBound (by omega) fun hw => (h.counts_narrow hw).1
    · intro id hid
      obtain ⟨r, hr, rfl⟩ := List.mem_map.mp hid
      obtain ⟨g, hg, rfl⟩ := mem_ofGroups.mp hr
      exact lt_idBound (h.each g hg).id fun hw => (lt_of_ofGroups hw g hg).1
  fileIds r hr := by
    have hl := (ofGroups compress groups).length_fileIds_le hr
    have := h.length
    obtain ⟨g, hg, rfl⟩ := mem_ofGroups.mp hr
    rw [GroupContent.fileIds_reference] at hl ⊢
    rw [List.length_map] at hl
    apply idsFit_of_pairwise ?_ (h.each g hg).ascending ?_
    · rw [List.length_map]
      exact lt_idBound (by omega) fun hw => (h.counts_narrow hw).2 g hg
    · intro id hid
      obtain ⟨file, hf, rfl⟩ := List.mem_map.mp hid
      exact lt_idBound ((h.each g hg).fileIds file hf) fun hw => (lt_of_ofGroups hw g hg).2 file hf
  names hn r hr := by
    obtain ⟨g, hg, rfl⟩ := mem_ofGroups.mp hr
    rw [hasNames_ofGroups] at hn
    have hname : g.name = none := by simpa using List.any_eq_false.mp hn g hg
    refine ⟨by simp [GroupContent.reference, hname], fun file hf => ?_⟩
    obtain ⟨f, -, rfl⟩ := List.mem_map.mp hf
    rfl
  digests r hr := by
    obtain ⟨g, -, rfl⟩ := mem_ofGroups.mp hr
    rfl
  lengths _ r hr := by
    obtain ⟨g, -, rfl⟩ := mem_ofGroups.mp hr
    exact ⟨rfl, rfl⟩
  uncompressedChecksums _ r hr := by
    obtain ⟨g, -, rfl⟩ := mem_ofGroups.mp hr
    rfl

theorem Indexable.get?_ofGroups {g : GroupContent} (hg : g ∈ groups) :
    (ofGroups compress groups).get? g.id = some (g.reference compress) := by
  unfold get?
  apply find?_of_unique (mem_ofGroups.mpr ⟨g, hg, rfl⟩)
  · simp
  · intro r hr hid
    obtain ⟨g', hg', rfl⟩ := mem_ofGroups.mp hr
    rw [List.inj_on_of_nodup_map h.nodup hg' hg (of_decide_eq_true hid)]

theorem Indexable.named?_ofGroups {g : GroupContent} (hg : g ∈ groups) {name : String}
    (hn : g.name = some name) :
    (ofGroups compress groups).named? (nameHash name) = some g.id := by
  have hnames : (ofGroups compress groups).hasNames = true := by
    rw [hasNames_ofGroups, List.any_eq_true]
    exact ⟨g, hg, by rw [hn]; rfl⟩
  have hfind : (ofGroups compress groups).groups.reverse.find?
      (fun r => decide (r.nameHash.toUInt32 = nameHash name)) =
      some (g.reference compress) := by
    apply find?_of_unique
    · rw [List.mem_reverse]
      exact mem_ofGroups.mpr ⟨g, hg, rfl⟩
    · simp [toUInt32_nameHash, hn]
    · intro r hr hp
      rw [List.mem_reverse] at hr
      obtain ⟨g', hg', rfl⟩ := mem_ofGroups.mp hr
      have hp := of_decide_eq_true hp
      rw [toUInt32_nameHash] at hp
      cases hn' : g'.name with
      | none =>
        rw [hn'] at hp
        exact absurd hp.symm ((h.each g hg).name name hn)
      | some name' =>
        rw [hn'] at hp
        rw [h.names g' hg' g hg name' name hn' hn hp]
  unfold named?
  rw [hnames, if_pos rfl, hfind]
  rfl

end ReferenceIndex

end Js5
