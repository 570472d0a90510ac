import Js5.Proofs.Cursor.Smart
import Js5.Proofs.Repeats
import Js5.ReferenceIndex.Writer

/-! # An index that fits its format is read back from the bytes that it is written as, column by column -/

namespace Js5.ReferenceIndex

open Cursor (Consumes)

theorem consumes_lift {α : Type} {read : Cursor.Read α} {b : Bytes} {v : α} (h : Consumes read b v) :
    Consumes (liftM read : Read α) b v :=
  h.mapError Error.outOfBounds

/-! ## Ids -/

theorem ofNat_and_low {n : Nat} (h : n < 2 ^ 31) :
    UInt32.ofNat (0x80000000 + n) &&& 0x7fffffff = UInt32.ofNat n := by
  apply UInt32.toNat_inj.mp
  have hm : (0x7fffffff : UInt32).toNat = 2 ^ 31 - 1 := rfl
  rw [UInt32.toNat_and, hm, Nat.and_two_pow_sub_one_eq_mod,
    UInt32.toNat_ofNat_of_lt' (by show _ < 4294967296; omega),
    UInt32.toNat_ofNat_of_lt' (by show _ < 4294967296; omega)]
  omega

theorem toUInt32_ofNat {n : Nat} (h : n < 65536) : (UInt16.ofNat n).toUInt32 = UInt32.ofNat n := by
  apply UInt32.toNat_inj.mp
  rw [UInt16.toNat_toUInt32, UInt16.toNat_ofNat_of_lt' h,
    UInt32.toNat_ofNat_of_lt' (by show _ < 4294967296; omega)]

def idBound (wide : Bool) : Nat := if wide then 2 ^ 31 else 2 ^ 16

/-- The ids do not go down from `last` on, and every step is below a bound. -/
def Steps (bound last : Nat) : List UInt32 → Prop
  | [] => True
  | id :: ids => last ≤ id.toNat ∧ id.toNat - last < bound ∧ Steps bound id.toNat ids

theorem head_ofNat (width n : Nat) (h : n < 256 ^ (width + 1)) :
    ∃ tail, Bytes.ofNat (width + 1) n = UInt8.ofNat (n / 256 ^ width) :: tail := by
  induction width generalizing n with
  | zero => exact ⟨[], by simp [Bytes.ofNat]⟩
  | succ width ih =>
    obtain ⟨tail, ht⟩ := ih (n / 256) (by rw [Nat.pow_succ] at h; exact Nat.div_lt_of_lt_mul (by omega))
    refine ⟨tail ++ [UInt8.ofNat n], ?_⟩
    rw [Bytes.ofNat, ht, Nat.div_div_eq_div_mul, ← Nat.pow_succ']
    rfl

theorem consumes_smart {n : Nat} (h : n < 2 ^ 31) :
    Consumes Cursor.smart (writeId true n) (UInt32.ofNat n) := by
  intro c tail hr
  unfold writeId at hr
  by_cases hn : 0x8000 ≤ n
  · simp only [Bool.true_and, decide_eq_true hn, if_true] at hr
    obtain ⟨t, ht⟩ := head_ofNat 3 (0x80000000 + n) (by omega)
    obtain ⟨c', hc, hd, hr'⟩ := Cursor.consumes_u32 (Bytes.length_ofNat 4 _) c tail hr
    rw [ht] at hr
    have hx : 128 ≤ (UInt8.ofNat ((0x80000000 + n) / 256 ^ 3)).toNat := by
      rw [UInt8.toNat_ofNat_of_lt' (by show _ < 256; omega)]
      omega
    rw [Bytes.toNat_ofNat_of_lt (by omega)] at hc
    refine ⟨c', ?_, hd, hr'⟩
    rw [Cursor.smart_of_long hr hx, Cursor.bind_of_ok hc, ofNat_and_low h]
    rfl
  · simp only [Bool.true_and, decide_eq_false hn] at hr
    obtain ⟨t, ht⟩ := head_ofNat 1 n (by omega)
    obtain ⟨c', hc, hd, hr'⟩ := Cursor.consumes_u16 (Bytes.length_ofNat 2 _) c tail hr
    rw [if_neg Bool.false_ne_true, ht] at hr
    have hx : (UInt8.ofNat (n / 256 ^ 1)).toNat < 128 := by
      rw [UInt8.toNat_ofNat_of_lt' (by show _ < 256; omega)]
      omega
    rw [Bytes.toNat_ofNat_of_lt (by omega)] at hc
    refine ⟨c', ?_, hd, hr'⟩
    rw [Cursor.smart_of_short hr hx, Cursor.bind_of_ok hc, toUInt32_ofNat (by omega)]
    rfl

theorem consumes_readId (wide : Bool) {n : Nat} (h : n < idBound wide) :
    Consumes (readId wide) (writeId wide n) (UInt32.ofNat n) := by
  cases wide with
  | true => exact consumes_lift (consumes_smart h)
  | false =>
    have hn : n < 65536 := h
    have := (consumes_lift (Cursor.consumes_u16 (Bytes.length_ofNat 2 n))).map UInt16.toUInt32
    rw [Bytes.toNat_ofNat_of_lt (by omega), toUInt32_ofNat hn] at this
    exact this

theorem consumes_readIds (wide : Bool) : ∀ (ids : List UInt32) (last : UInt32) (done : Array UInt32),
    Steps (idBound wide) last.toNat ids →
    Consumes (readIds wide last done ids.length) (writeIds wide last.toNat ids) (done ++ ids.toArray)
  | [], last, done, _ => by
    simpa [readIds, writeIds] using Cursor.consumes_pure done
  | id :: ids, last, done, ⟨hl, hb, hs⟩ => by
    intro c tail hr
    have hid := id.toNat_lt
    rw [writeIds, List.append_assoc] at hr
    obtain ⟨c₁, h₁, hd₁, hr₁⟩ := consumes_readId wide hb c _ hr
    have hdelta : (UInt32.ofNat (id.toNat - last.toNat)).toNat = id.toNat - last.toNat :=
      UInt32.toNat_ofNat_of_lt' (by show _ < 4294967296; omega)
    have hsum : last.toNat + (UInt32.ofNat (id.toNat - last.toNat)).toNat = id.toNat := by omega
    have hnext : last + UInt32.ofNat (id.toNat - last.toNat) = id := by
      apply UInt32.toNat_inj.mp
      rw [UInt32.toNat_add, hsum]
      exact Nat.mod_eq_of_lt hid
    obtain ⟨c₂, h₂, hd₂, hr₂⟩ := consumes_readIds wide ids id (done.push id) hs c₁ tail hr₁
    refine ⟨c₂, ?_, hd₂.trans hd₁, hr₂⟩
    rw [List.length_cons, readIds, Cursor.bind_of_ok h₁, hsum, if_pos hid, hnext, h₂]
    simp

structure IdsFit (wide : Bool) (ids : List UInt32) : Prop where
  length : ids.length < idBound wide
  ascending : ids.Pairwise (· < ·)
  steps : Steps (idBound wide) 0 ids

theorem IdsFit.nodup {wide : Bool} {ids : List UInt32} (h : IdsFit wide ids) : ids.Nodup :=
  h.ascending.imp fun hab => UInt32.ne_of_lt hab

theorem idBound_le (wide : Bool) : idBound wide ≤ 2 ^ 31 := by
  cases wide <;> decide

theorem consumes_readIdList {wide : Bool} {ids : List UInt32} (h : IdsFit wide ids) :
    Consumes (readIdList wide (UInt32.ofNat ids.length)) (writeIds wide 0 ids) ids := by
  have hlen : (UInt32.ofNat ids.length).toNat = ids.length := by
    have := idBound_le wide
    have := h.length
    exact UInt32.toNat_ofNat_of_lt' (by show _ < 4294967296; omega)
  have := (consumes_readIds wide ids 0 #[] h.steps).map fun ids => ids.toList.eraseReps
  unfold readIdList
  rw [hlen]
  simpa [eraseReps_of_nodup h.nodup] using this

/-! ## Columns -/

/-- A column fills in one field of each group. Where there is no column, the field has to be what it is in a
group of which only the id is known. -/
theorem consumes_column {α : Type} {present : Bool} (groups : List Group) (before after : Group → α)
    {read : α → Read α} {write : Group → Bytes}
    (hyes : present = true → ∀ g ∈ groups, Consumes (read (before g)) (write g) (after g))
    (hno : present = false → ∀ g ∈ groups, before g = after g) :
    Consumes (column present (groups.map before) read) (writeColumn present groups write)
      (groups.map after) := by
  unfold column writeColumn
  cases present with
  | true =>
    have := Consumes.mapM (f := fun g => read (before g)) (g := after) groups fun g hg => hyes rfl g hg
    rw [if_pos rfl, if_pos rfl, List.mapM_map]
    exact this
  | false =>
    rw [if_neg Bool.false_ne_true, if_neg Bool.false_ne_true, List.map_congr_left (hno rfl)]
    exact Cursor.consumes_pure _

theorem consumes_writeWord (n : UInt32) : Consumes (liftM Cursor.u32 : Read UInt32) (writeWord n) n :=
  consumes_lift (Cursor.consumes_u32_ofNat n)

theorem consumes_writeSigned (n : Int32) : Consumes (liftM Cursor.i32 : Read Int32) (writeSigned n) n :=
  consumes_lift (Cursor.consumes_i32_ofNat n)

/-- An index that fits its format: the ids and their numbers fit, and what has no column is as it is in a
group of which only the id is known. -/
structure Fits (index : ReferenceIndex) : Prop where
  protocol : index.protocol = 5 ∨ index.protocol = 6 ∨ index.protocol = 7
  version : isVersioned index.protocol = false → index.version = 0
  ids : IdsFit (isWide index.protocol) (index.groups.map Group.id)
  fileIds : ∀ g ∈ index.groups, IdsFit (isWide index.protocol) g.fileIds
  names : index.hasNames = false →
    ∀ g ∈ index.groups, g.nameHash = -1 ∧ ∀ file ∈ g.files, file.nameHash = -1
  digests : ∀ g ∈ index.groups, if index.hasDigests then g.digest.length = digestSize else g.digest = []
  lengths : index.hasLengths = false → ∀ g ∈ index.groups, g.length = 0 ∧ g.uncompressedLength = 0
  uncompressedChecksums : index.hasUncompressedChecksums = false →
    ∀ g ∈ index.groups, g.uncompressedChecksum = 0

def Group.bare (g : Group) : Group := { g with files := [] }

def File.blank (id : UInt32) : File := ⟨id, -1⟩

theorem consumes_fileNames (files : List File) :
    Consumes ((files.map fun file => File.blank file.id).mapM fun file =>
        (do return { file with nameHash := ← Cursor.i32 } : Read File))
      (files.flatMap fun file => writeSigned file.nameHash) files := by
  have := Consumes.mapM files fun file _ => (consumes_writeSigned file.nameHash).map fun n =>
    File.mk file.id n
  rw [List.mapM_map]
  simpa [Function.comp_def, File.blank] using this

/-! ## Whole indexes -/

def readBehind (protocol : UInt8) (version : Int32) : Read ReferenceIndex := do
  let flags ← Cursor.u8
  let count ← readId (isWide protocol)
  let ids ← readIdList (isWide protocol) count
  let index := {
    protocol, version
    hasNames := flags &&& 1 != 0
    hasDigests := flags &&& 2 != 0
    hasLengths := flags &&& 4 != 0
    hasUncompressedChecksums := flags &&& 8 != 0
    groups := ids.map Group.blank }
  let groups ← readColumns index
  let groups ← readFiles (isWide protocol) index.hasNames groups
  return { index with groups }

theorem readIndex_eq : readIndex = (do
    let protocol ← Cursor.u8
    if protocol < 5 || 7 < protocol then throw (.unsupportedProtocol protocol)
    else if isVersioned protocol then readBehind protocol (← Cursor.i32)
    else readBehind protocol 0) := rfl

section
variable (index : ReferenceIndex)

theorem flags_names : (index.flags &&& 1 != 0) = index.hasNames := by
  unfold flags
  cases index.hasNames <;> cases index.hasDigests <;> cases index.hasLengths <;>
    cases index.hasUncompressedChecksums <;> decide

theorem flags_digests : (index.flags &&& 2 != 0) = index.hasDigests := by
  unfold flags
  cases index.hasNames <;> cases index.hasDigests <;> cases index.hasLengths <;>
    cases index.hasUncompressedChecksums <;> decide

theorem flags_lengths : (index.flags &&& 4 != 0) = index.hasLengths := by
  unfold flags
  cases index.hasNames <;> cases index.hasDigests <;> cases index.hasLengths <;>
    cases index.hasUncompressedChecksums <;> decide

theorem flags_uncompressedChecksums : (index.flags &&& 8 != 0) = index.hasUncompressedChecksums := by
  unfold flags
  cases index.hasNames <;> cases index.hasDigests <;> cases index.hasLengths <;>
    cases index.hasUncompressedChecksums <;> decide

end

section
variable {index : ReferenceIndex} (h : index.Fits)
include h

theorem consumes_readColumns :
    Consumes (readColumns { index with groups := index.groups.map fun g => Group.blank g.id })
      (writeColumn index.hasNames index.groups (fun g => writeSigned g.nameHash)
        ++ (writeColumn true index.groups (fun g => writeWord g.checksum)
        ++ (writeColumn index.hasUncompressedChecksums index.groups
          (fun g => writeWord g.uncompressedChecksum)
        ++ (writeColumn index.hasDigests index.groups Group.digest
        ++ (writeColumn index.hasLengths index.groups
          (fun g => writeWord g.length ++ writeWord g.uncompressedLength)
        ++ writeColumn true index.groups (fun g => writeWord g.version))))))
      (index.groups.map Group.bare) := by
  -- the groups as they are after each column
  let named := fun g : Group => { Group.blank g.id with nameHash := g.nameHash }
  let checked := fun g : Group => { named g with checksum := g.checksum }
  let checkedTwice := fun g : Group => { checked g with uncompressedChecksum := g.uncompressedChecksum }
  let digested := fun g : Group => { checkedTwice g with digest := g.digest }
  let measured := fun g : Group =>
    { digested g with length := g.length, uncompressedLength := g.uncompressedLength }
  unfold readColumns
  refine (consumes_column index.groups (fun g => Group.blank g.id) named ?_ ?_).bind ?_
  · intro _ g _
    exact (consumes_writeSigned g.nameHash).map fun n => { Group.blank g.id with nameHash := n }
  · intro hn g hg
    simp [named, (h.names hn g hg).1, Group.blank]
  refine (consumes_column index.groups named checked ?_ ?_).bind ?_
  · intro _ g _
    exact (consumes_writeWord g.checksum).map fun n => { named g with checksum := n }
  · intro hn
    cases hn
  refine (consumes_column index.groups checked checkedTwice ?_ ?_).bind ?_
  · intro _ g _
    exact (consumes_writeWord g.uncompressedChecksum).map fun n =>
      { checked g with uncompressedChecksum := n }
  · intro hn g hg
    simp [checkedTwice, checked, named, h.uncompressedChecksums hn g hg, Group.blank]
  refine (consumes_column index.groups checkedTwice digested ?_ ?_).bind ?_
  · intro hd g hg
    have hl := h.digests g hg
    rw [if_pos (show index.hasDigests = true from hd)] at hl
    have := consumes_lift (Cursor.consumes_take g.digest)
    rw [hl] at this
    exact this.map fun b => { checkedTwice g with digest := b }
  · intro hd g hg
    have hl := h.digests g hg
    rw [if_neg (by rw [show index.hasDigests = false from hd]; exact Bool.false_ne_true)] at hl
    simp [digested, checkedTwice, checked, named, hl, Group.blank]
  refine (consumes_column index.groups digested measured ?_ ?_).bind ?_
  · intro _ g _
    exact (consumes_writeWord g.length).bind ((consumes_writeWord g.uncompressedLength).map fun n =>
      { digested g with length := g.length, uncompressedLength := n })
  · intro hn g hg
    obtain ⟨hl, hu⟩ := h.lengths hn g hg
    simp [measured, digested, checkedTwice, checked, named, hl, hu, Group.blank]
  apply consumes_column index.groups measured Group.bare
  · intro _ g _
    exact (consumes_writeWord g.version).map fun n => { measured g with version := n }
  · intro hn
    cases hn

theorem consumes_readFiles :
    Consumes (readFiles (isWide index.protocol) index.hasNames (index.groups.map Group.bare))
      (writeColumn true index.groups (fun g => writeId (isWide index.protocol) g.files.length)
        ++ (writeColumn true index.groups (fun g => writeIds (isWide index.protocol) 0 g.fileIds)
        ++ writeColumn index.hasNames index.groups
          (fun g => g.files.flatMap fun file => writeSigned file.nameHash)))
      index.groups := by
  -- the groups when the ids of their files are known
  let listed := fun g : Group => { g with files := g.files.map fun file : File => File.blank file.id }
  have hlength : ∀ g : Group, g.files.length = g.fileIds.length := fun g => by simp [Group.fileIds]
  have hcounts : Consumes ((index.groups.map Group.bare).mapM fun _ => readId (isWide index.protocol))
      (writeColumn true index.groups fun g => writeId (isWide index.protocol) g.files.length)
      (index.groups.map fun g => UInt32.ofNat g.files.length) := by
    rw [List.mapM_map]
    apply Consumes.mapM index.groups
    intro g hg
    apply consumes_readId
    rw [hlength]
    exact (h.fileIds g hg).length
  unfold readFiles
  apply hcounts.bind
  rw [List.zip_map', List.mapM_map]
  refine Consumes.bind (v := index.groups.map listed) ?_ ?_
  · apply Consumes.mapM index.groups
    intro g hg
    have := consumes_readIdList (h.fileIds g hg)
    rw [← hlength] at this
    refine (this.map fun ids => { g.bare with files := ids.map File.blank }).congr ?_
    simp [Group.bare, listed, Group.fileIds, Function.comp_def]
  · refine (consumes_column index.groups listed id ?_ ?_).congr (List.map_id _)
    · intro _ g _
      exact (consumes_fileNames g.files).map fun files => { listed g with files }
    · intro hn g hg
      have hf : g.files.map (fun file => File.blank file.id) = g.files := by
        rw [List.map_congr_left (g := id), List.map_id]
        intro file hfile
        have := (h.names hn g hg).2 file hfile
        obtain ⟨fileId, nameHash⟩ := file
        cases this
        rfl
      simp [listed, hf]

theorem consumes_readBehind :
    Consumes (readBehind index.protocol index.version)
      ([index.flags] ++ (writeId (isWide index.protocol) index.groups.length
        ++ (writeIds (isWide index.protocol) 0 (index.groups.map Group.id)
        ++ (writeColumn index.hasNames index.groups (fun g => writeSigned g.nameHash)
        ++ (writeColumn true index.groups (fun g => writeWord g.checksum)
        ++ (writeColumn index.hasUncompressedChecksums index.groups
          (fun g => writeWord g.uncompressedChecksum)
        ++ (writeColumn index.hasDigests index.groups Group.digest
        ++ (writeColumn index.hasLengths index.groups
          (fun g => writeWord g.length ++ writeWord g.uncompressedLength)
        ++ (writeColumn true index.groups (fun g => writeWord g.version)
        ++ (writeColumn true index.groups (fun g => writeId (isWide index.protocol) g.files.length)
        ++ (writeColumn true index.groups (fun g => writeIds (isWide index.protocol) 0 g.fileIds)
        ++ writeColumn index.hasNames index.groups (fun g => g.files.flatMap fun file =>
          writeSigned file.nameHash))))))))))))
      index := by
  have hcount : index.groups.length = (index.groups.map Group.id).length := by simp
  have hflags : Consumes (liftM Cursor.u8 : Read UInt8) [index.flags] index.flags :=
    (consumes_lift (Cursor.consumes_u8 rfl)).congr (by simp [Bytes.toNat])
  have hcolumns := consumes_readColumns h
  have hfiles := consumes_readFiles h
  have hgroups := hcolumns.bind (f := fun groups => do
    return { index with groups := ← readFiles (isWide index.protocol) index.hasNames groups }) (hfiles.map _)
  simp only [List.append_assoc] at hgroups
  unfold readBehind
  apply hflags.bind
  rw [flags_names, flags_digests, flags_lengths, flags_uncompressedChecksums, hcount]
  apply (consumes_readId _ h.ids.length).bind
  apply (consumes_readIdList h.ids).bind
  rw [List.map_map]
  exact hgroups

theorem consumes_readIndex : Consumes readIndex index.toBytes index := by
  have hp : ¬ (index.protocol < 5 || 7 < index.protocol) = true := by
    rcases h.protocol with hp | hp | hp <;> rw [hp] <;> decide
  have hprotocol : Consumes (liftM Cursor.u8 : Read UInt8) [index.protocol] index.protocol :=
    (consumes_lift (Cursor.consumes_u8 rfl)).congr (by simp [Bytes.toNat])
  rw [readIndex_eq]
  unfold toBytes
  simp only [List.append_assoc]
  apply hprotocol.bind
  rw [if_neg hp]
  cases hv : isVersioned index.protocol with
  | true =>
    rw [if_pos rfl, if_pos rfl]
    exact (consumes_writeSigned index.version).bind (consumes_readBehind h)
  | false =>
    rw [if_neg Bool.false_ne_true, if_neg Bool.false_ne_true, ← h.version hv]
    exact consumes_readBehind h

end

theorem ofBytes_toBytes {index : ReferenceIndex} (h : index.Fits) (behind : Bytes) :
    ofBytes (index.toBytes ++ behind) = .ok index :=
  (consumes_readIndex h).run' behind

end Js5.ReferenceIndex
