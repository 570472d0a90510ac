import Js5.Proofs.ReferenceIndex.Extent

/-!
# What indexes are spelled with

The bytes that an index has been read from are its columns. Of ids that repeat only one is in the index.
-/

namespace Js5.ReferenceIndex

open Cursor (Yields)

/-! ## Ids -/

/-- The bytes of an id, or of a number of ids. A wide one may have four bytes though two would do. -/
inductive IsId : (wide : Bool) → (n : Nat) → Bytes → Prop
  | narrow {n : Nat} (h : n < 0x10000) : IsId false n (Bytes.ofNat 2 n)
  | short {n : Nat} (h : n < 0x8000) : IsId true n (Bytes.ofNat 2 n)
  | long {n : Nat} (h : n < 0x80000000) : IsId true n (Bytes.ofNat 4 (0x80000000 + n))

inductive IsIds (wide : Bool) : (last : Nat) → (ids : List UInt32) → Bytes → Prop
  | nil {last : Nat} : IsIds wide last [] []
  | cons {last : Nat} {id : UInt32} {ids : List UInt32} {b b' : Bytes} (hle : last ≤ id.toNat)
      (h : IsId wide (id.toNat - last) b) (hs : IsIds wide id.toNat ids b') :
        IsIds wide last (id :: ids) (b ++ b')

theorem div_of_head (width : Nat) {n : Nat} {x : UInt8} (h : n < 256 ^ (width + 1))
    (hx : (Bytes.ofNat (width + 1) n).head? = some x) : n / 256 ^ width = x.toNat := by
  obtain ⟨tail, ht⟩ := head_ofNat width n h
  rw [ht, List.head?_cons] at hx
  cases hx
  have hlt : n / 256 ^ width < 256 := Nat.div_lt_of_lt_mul (by rwa [Nat.pow_succ] at h)
  exact (UInt8.toNat_ofNat_of_lt' hlt).symm

theorem isId_smart_long {n : UInt32} {x : UInt8} (hx : (Bytes.ofNat 4 n.toNat).head? = some x)
    (h : 128 ≤ x.toNat) :
    IsId true (n &&& 0x7fffffff).toNat (Bytes.ofNat 4 n.toNat) := by
  have hn := n.toNat_lt
  have htop := div_of_head 3 hn hx
  have hlow : 0x80000000 + (n &&& 0x7fffffff).toNat = n.toNat := by
    rw [Cursor.and_low_toNat]
    omega
  have hform := IsId.long (n := (n &&& 0x7fffffff).toNat) (by omega)
  rwa [hlow] at hform

theorem isId_smart_short {n : UInt16} {x : UInt8} (hx : (Bytes.ofNat 2 n.toNat).head? = some x)
    (h : x.toNat < 128) :
    IsId true n.toNat (Bytes.ofNat 2 n.toNat) := by
  have htop := div_of_head 1 n.toNat_lt hx
  exact .short (by omega)

theorem yields_smart_isId : Yields Cursor.smart fun v b => IsId true v.toNat b := by
  refine yields_smart fun x => ?_
  unfold smartBehind
  rw [Cursor.and_top_ne_zero]
  split
  · rename_i h
    refine (Cursor.yields_u32.map (· &&& 0x7fffffff)).mono ?_
    rintro _ _ ⟨n, rfl, rfl⟩ hx
    exact isId_smart_long hx (of_decide_eq_true h)
  · rename_i h
    refine (Cursor.yields_u16.map UInt16.toUInt32).mono ?_
    rintro _ _ ⟨n, rfl, rfl⟩ hx
    rw [UInt16.toNat_toUInt32]
    exact isId_smart_short hx (Nat.lt_of_not_le fun hle => h (decide_eq_true hle))

theorem yields_readId (wide : Bool) : Yields (readId wide) fun v b => IsId wide v.toNat b := by
  unfold readId
  cases wide with
  | true => exact yields_smart_isId.mapError Error.outOfBounds
  | false =>
    refine ((Cursor.yields_u16.mapError Error.outOfBounds).map UInt16.toUInt32).mono ?_
    rintro _ _ ⟨n, rfl, rfl⟩
    rw [UInt16.toNat_toUInt32]
    exact .narrow n.toNat_lt

theorem yields_readIds (wide : Bool) : ∀ (count : Nat) (last : UInt32) (done : Array UInt32),
    Yields (readIds wide last done count) fun out b =>
      ∃ ids : List UInt32, out = done ++ ids.toArray ∧ ids.length = count ∧ IsIds wide last.toNat ids b
  | 0, last, done => Cursor.yields_pure ⟨[], by simp, rfl, .nil⟩
  | count + 1, last, done => by
    unfold readIds
    refine (yields_readId wide).bind fun delta b hb => ?_
    split
    · rename_i hlt
      have hnext : (last + delta).toNat = last.toNat + delta.toNat := by
        rw [UInt32.toNat_add, Nat.mod_eq_of_lt hlt]
      refine (yields_readIds wide count (last + delta) _).mono ?_
      rintro _ b' ⟨ids, rfl, rfl, hs⟩
      refine ⟨(last + delta) :: ids, by simp, rfl, .cons (by omega) ?_ hs⟩
      rwa [hnext, Nat.add_sub_cancel_left]
    · exact Cursor.yields_throw

theorem yields_readIdList (wide : Bool) (count : UInt32) : Yields (readIdList wide count) fun v b =>
    ∃ ids : List UInt32, v = ids.eraseReps ∧ ids.length = count.toNat ∧ IsIds wide 0 ids b := by
  refine ((yields_readIds wide count.toNat 0 #[]).map fun ids => ids.toList.eraseReps).mono ?_
  rintro _ b ⟨_, ⟨ids, rfl, hl, hs⟩, rfl⟩
  exact ⟨ids, by simp, hl, hs⟩

theorem IsIds.pairwise {wide : Bool} {last : Nat} {ids : List UInt32} {b : Bytes}
    (h : IsIds wide last ids b) :
    (∀ id ∈ ids, last ≤ id.toNat) ∧ ids.Pairwise (· ≤ ·) := by
  induction h with
  | nil => exact ⟨fun _ h => absurd h List.not_mem_nil, List.Pairwise.nil⟩
  | cons hle _ _ ih =>
    refine ⟨List.forall_mem_cons.mpr ⟨hle, fun id hid => Nat.le_trans hle (ih.1 id hid)⟩, ?_⟩
    exact List.pairwise_cons.mpr ⟨fun id hid => UInt32.le_iff_toNat_le.mpr (ih.1 id hid), ih.2⟩

theorem IsIds.ascending {wide : Bool} {ids : List UInt32} {b : Bytes} (h : IsIds wide 0 ids b) :
    ids.eraseReps.Pairwise (· < ·) :=
  (pairwise_eraseReps (fun _ _ => UInt32.le_antisymm) h.pairwise.2).imp fun hab =>
    UInt32.lt_of_le_of_ne hab.1 hab.2

/-! ## Columns -/

/-- The rows of a column are known as they were before it, and tell how they were spelled. -/
theorem yields_column {α : Type} {present : Bool} {rows : List α} {read : α → Read α} {P : α → Prop}
    (before : α → α) (write : α → Bytes)
    (hyes : present = true → ∀ x ∈ rows, Yields (read x) fun y b => P y ∧ before y = x ∧ write y = b)
    (hno : present = false → ∀ x ∈ rows, P x ∧ before x = x) :
    Yields (column present rows read) fun ys b =>
      (∀ y ∈ ys, P y) ∧ ys.map before = rows ∧ b = writeColumn present ys write := by
  unfold column writeColumn
  cases present with
  | true =>
    rw [if_pos rfl]
    refine (Yields.mapM (G := P) before id write fun x hx =>
      (hyes rfl x hx).mono fun y _ ⟨hp, hb, hw⟩ => ⟨y, hp, hb, rfl, hw⟩).mono ?_
    rintro _ _ ⟨ys, hp, hb, rfl, hw⟩
    rw [List.map_id, if_pos rfl]
    exact ⟨hp, hb, hw.symm⟩
  | false =>
    rw [if_neg Bool.false_ne_true]
    refine Cursor.yields_pure ⟨fun x hx => (hno rfl x hx).1, ?_, rfl⟩
    rw [List.map_congr_left (g := id) fun x hx => (hno rfl x hx).2, List.map_id]

theorem writeColumn_map {α β : Type} (present : Bool) (rows : List α) (f : α → β) (write : β → Bytes) :
    writeColumn present (rows.map f) write = writeColumn present rows fun x => write (f x) := by
  unfold writeColumn
  rw [List.flatMap_map]

theorem length_writeColumn {α : Type} {present : Bool} {rows : List α} {write : α → Bytes} {width : Nat}
    (h : present = true → ∀ x ∈ rows, (write x).length = width) :
    (writeColumn present rows write).length = (if present then width else 0) * rows.length := by
  unfold writeColumn
  cases present with
  | true =>
    rw [if_pos rfl, if_pos rfl, List.length_flatMap, List.map_congr_left (h rfl), List.map_const',
      List.sum_replicate_nat, Nat.mul_comm]
  | false =>
    rw [if_neg Bool.false_ne_true, if_neg Bool.false_ne_true, Nat.zero_mul]
    rfl

theorem yields_field {V : Type} {present : Bool} {rows : List Group} {read : Group → Read Group}
    (before : Group → Group) (get : Group → V) (set : Group → V → Group) (write : V → Bytes) (width : Nat)
    (hread : ∀ x, Yields (read x) fun y b => ∃ v, (write v = b ∧ b.length = width) ∧ y = set x v)
    (hrows : ∀ x ∈ rows, before x = x) (hset : ∀ x, set x (get x) = x) (hget : ∀ x v, get (set x v) = v)
    (hbefore : ∀ x v, before (set x v) = before x) :
    Yields (column present rows read) fun ys b =>
      (∀ y ∈ ys, set (before y) (get y) = y) ∧ ys.map before = rows ∧
        b = writeColumn present ys (fun y => write (get y)) ∧
        b.length = (if present then width else 0) * ys.length := by
  refine (yields_column
    (P := fun y => set (before y) (get y) = y ∧ (present = true → (write (get y)).length = width))
    before (fun y => write (get y)) ?_ ?_).mono ?_
  · intro _ x hx
    refine (hread x).mono ?_
    rintro _ _ ⟨v, ⟨rfl, hl⟩, rfl⟩
    rw [hget, hbefore, hrows x hx]
    exact ⟨⟨rfl, fun _ => hl⟩, rfl, rfl⟩
  · intro hp x hx
    refine ⟨⟨?_, fun h => absurd (hp.symm.trans h) Bool.false_ne_true⟩, hrows x hx⟩
    rw [hrows x hx, hset]
  · rintro ys _ ⟨hp, hb, rfl⟩
    exact ⟨fun y hy => (hp y hy).1, hb, rfl, length_writeColumn fun h y hy => (hp y hy).2 h⟩

theorem yields_word : Yields (liftM Cursor.u32 : Read UInt32) fun n b => writeWord n = b ∧ b.length = 4 := by
  refine (Cursor.yields_u32.mapError Error.outOfBounds).mono ?_
  rintro n _ rfl
  exact ⟨rfl, Bytes.length_ofNat ..⟩

theorem yields_signed :
    Yields (liftM Cursor.i32 : Read Int32) fun n b => writeSigned n = b ∧ b.length = 4 := by
  refine (Cursor.yields_i32.mapError Error.outOfBounds).mono ?_
  rintro n _ rfl
  exact ⟨rfl, Bytes.length_ofNat ..⟩

theorem yields_digest :
    Yields (liftM (Cursor.take digestSize) : Read Bytes) fun v b => id v = b ∧ b.length = digestSize := by
  refine ((Cursor.yields_take digestSize).mapError Error.outOfBounds).mono ?_
  rintro v _ ⟨rfl, hl⟩
  exact ⟨rfl, hl⟩

def columns (index : ReferenceIndex) : Bytes :=
  writeColumn index.hasNames index.groups (fun g => writeSigned g.nameHash)
    ++ writeColumn true index.groups (fun g => writeWord g.checksum)
    ++ writeColumn index.hasUncompressedChecksums index.groups (fun g => writeWord g.uncompressedChecksum)
    ++ writeColumn index.hasDigests index.groups Group.digest
    ++ writeColumn index.hasLengths index.groups
      (fun g => writeWord g.length ++ writeWord g.uncompressedLength)
    ++ writeColumn true index.groups (fun g => writeWord g.version)

def fileNames (index : ReferenceIndex) : Bytes :=
  writeColumn index.hasNames index.groups fun g => g.files.flatMap fun file => writeSigned file.nameHash

def rowSize (index : ReferenceIndex) : Nat :=
  (if index.hasNames then 4 else 0) + 4 + (if index.hasUncompressedChecksums then 4 else 0)
    + (if index.hasDigests then digestSize else 0) + (if index.hasLengths then 8 else 0) + 4

theorem yields_readColumns (index : ReferenceIndex) (hblank : ∀ g ∈ index.groups, Group.blank g.id = g) :
    Yields (readColumns index) fun groups b =>
      (∀ g ∈ groups, g.bare = g) ∧ groups.map (fun g => Group.blank g.id) = index.groups ∧
      b = columns { index with groups } ∧ b.length = index.rowSize * groups.length := by
  -- the groups as they are after each column
  let blank := fun g : Group => Group.blank g.id
  let named := fun g : Group => { blank g with nameHash := g.nameHash }
  let checked := fun g : Group => { named g with checksum := g.checksum }
  let checkedTwice := fun g : Group => { checked g with uncompressedChecksum := g.uncompressedChecksum }
  let digested := fun g : Group => { checkedTwice g with digest := g.digest }
  let measured := fun g : Group =>
    { digested g with length := g.length, uncompressedLength := g.uncompressedLength }
  unfold readColumns
  refine (yields_field blank Group.nameHash (fun g n => { g with nameHash := n }) writeSigned 4
    (fun g => yields_signed.map _) hblank (fun _ => rfl) (fun _ _ => rfl) (fun _ _ => rfl)).bind ?_
  rintro g₁ b₁ ⟨h₁, hg₁, hb₁, hl₁⟩
  refine (yields_field named Group.checksum (fun g n => { g with checksum := n }) writeWord 4
    (fun g => yields_word.map _) h₁ (fun _ => rfl) (fun _ _ => rfl) (fun _ _ => rfl)).bind ?_
  rintro g₂ b₂ ⟨h₂, hg₂, hb₂, hl₂⟩
  refine (yields_field checked Group.uncompressedChecksum
    (fun g n => { g with uncompressedChecksum := n }) writeWord 4
    (fun g => yields_word.map _) h₂ (fun _ => rfl) (fun _ _ => rfl) (fun _ _ => rfl)).bind ?_
  rintro g₃ b₃ ⟨h₃, hg₃, hb₃, hl₃⟩
  refine (yields_field checkedTwice Group.digest (fun g b => { g with digest := b }) id digestSize
    (fun g => yields_digest.map _) h₃ (fun _ => rfl) (fun _ _ => rfl) (fun _ _ => rfl)).bind ?_
  rintro g₄ b₄ ⟨h₄, hg₄, hb₄, hl₄⟩
  refine (yields_field digested (fun g => (g.length, g.uncompressedLength))
    (fun g n => { g with length := n.1, uncompressedLength := n.2 })
      (fun n => writeWord n.1 ++ writeWord n.2) 8
    (fun g => ?_) h₄ (fun _ => rfl) (fun _ _ => rfl) (fun _ _ => rfl)).bind ?_
  · refine yields_word.bind fun n b hn => (yields_word.map _).mono ?_
    rintro _ b' ⟨m, hm, rfl⟩
    refine ⟨(n, m), ⟨?_, ?_⟩, rfl⟩
    · rw [hn.1, hm.1]
    · rw [List.length_append, hn.2, hm.2]
  rintro g₅ b₅ ⟨h₅, hg₅, hb₅, hl₅⟩
  refine (yields_field measured Group.version (fun g n => { g with version := n }) writeWord 4
    (fun g => yields_word.map _) h₅ (fun _ => rfl) (fun _ _ => rfl) (fun _ _ => rfl)).mono ?_
  rintro g₆ b₆ ⟨h₆, hg₆, hb₆, hl₆⟩
  -- what a column has written of the groups is still in them behind the last one
  subst hg₆ hg₅ hg₄ hg₃ hg₂
  rw [List.map_map, List.map_map, List.map_map, List.map_map, List.map_map] at hg₁
  simp only [writeColumn_map] at hb₁ hb₂ hb₃ hb₄ hb₅
  simp only [List.length_map] at hl₁ hl₂ hl₃ hl₄ hl₅
  refine ⟨h₆, hg₁, ?_, ?_⟩
  · rw [hb₁, hb₂, hb₃, hb₄, hb₅, hb₆]
    unfold columns
    simp only [List.append_assoc]
    rfl
  · simp only [List.length_append, hl₁, hl₂, hl₃, hl₄, hl₅, hl₆, rowSize]
    grind

/-! ## Files -/

/-- Ids as they are in the bytes: how many there are, and the steps from each to the next. -/
structure IdList (wide : Bool) where
  ids : List UInt32
  count : Bytes
  steps : Bytes
  isId : IsId wide ids.length count
  isIds : IsIds wide 0 ids steps

def IdList.entries {wide : Bool} (l : IdList wide) : List UInt32 := l.ids.eraseReps

def Group.unnamed (g : Group) : Group := { g with files := g.files.map fun file => File.blank file.id }

theorem Group.fileIds_unnamed (g : Group) : g.unnamed.fileIds = g.fileIds := by
  unfold fileIds unnamed
  exact List.map_map

theorem Group.fileIds_of_blank {g : Group} {ids : List UInt32} (h : g.files = ids.map File.blank) :
    g.fileIds = ids := by
  unfold fileIds
  rw [h, List.map_map]
  exact List.map_id ids

theorem Group.unnamed_of_blank {g : Group} {ids : List UInt32} (h : g.files = ids.map File.blank) :
    g.unnamed = g := by
  unfold unnamed
  rw [h, List.map_map]
  exact congrArg (fun files => { g with files }) h.symm

theorem yields_readFileIds (wide : Bool) (groups : List Group) (hbare : ∀ g ∈ groups, g.bare = g) :
    Yields (do
      let counts ← groups.mapM fun _ => readId wide
      (groups.zip counts).mapM fun (g, count) =>
        return { g with files := (← readIdList wide count).map File.blank }) fun listed b =>
      ∃ files : List (IdList wide), listed.map Group.bare = groups ∧ (∀ g ∈ listed, g.unnamed = g) ∧
        listed.map Group.fileIds = files.map IdList.entries ∧
        b = files.flatMap IdList.count ++ files.flatMap IdList.steps := by
  refine (Yields.mapM (G := fun t : Group × UInt32 × Bytes => IsId wide t.2.1.toNat t.2.2) Prod.fst
    (fun t => t.2.1) (fun t => t.2.2)
    fun g _ => (yields_readId wide).mono fun n b h => ⟨(g, n, b), h, rfl, rfl, rfl⟩).bind ?_
  rintro _ _ ⟨counted, hcounted, rfl, rfl, rfl⟩
  rw [List.zip_map', List.mapM_map]
  refine (Yields.mapM (G := fun t : Group × IdList wide => t.1.files = t.2.entries.map File.blank)
    (fun t => (t.1.bare, UInt32.ofNat t.2.ids.length, t.2.count)) Prod.fst (fun t => t.2.steps)
    fun t ht => ((yields_readIdList wide t.2.1).map _).mono ?_).mono ?_
  · rintro _ b ⟨_, ⟨ids, rfl, hl, hs⟩, rfl⟩
    have hg := hbare t.1 (List.mem_map_of_mem ht)
    have hcount : UInt32.ofNat ids.length = t.2.1 := by rw [hl, UInt32.ofNat_toNat]
    refine ⟨(_, ⟨ids, t.2.2, b, hl ▸ hcounted t ht, hs⟩), ?_, ?_, rfl, rfl⟩
    · rfl
    · exact Prod.ext hg (Prod.ext hcount rfl)
  · rintro _ _ ⟨listed, hfiles, hrows, rfl, rfl⟩
    refine ⟨listed.map Prod.snd, ?_, ?_, ?_, ?_⟩
    · rw [← hrows, List.map_map, List.map_map]
      rfl
    · intro g hg
      obtain ⟨t, ht, rfl⟩ := List.mem_map.mp hg
      exact Group.unnamed_of_blank (hfiles t ht)
    · rw [List.map_map, List.map_map]
      exact List.map_congr_left fun t ht => Group.fileIds_of_blank (hfiles t ht)
    · rw [List.flatMap_map, List.flatMap_map, ← hrows, List.flatMap_map]

theorem yields_fileNames (files : List File)
    (hfiles : files.map (fun file => File.blank file.id) = files) :
    Yields (files.mapM fun file => (do return { file with nameHash := ← Cursor.i32 } : Read File))
      fun named b =>
      named.map (fun file => File.blank file.id) = files ∧
        named.flatMap (fun file => writeSigned file.nameHash) = b := by
  have hblank (file) (hfile : file ∈ files) : File.blank file.id = file := by
    rw [← hfiles] at hfile
    obtain ⟨_, -, rfl⟩ := List.mem_map.mp hfile
    rfl
  refine (Yields.mapM (G := fun _ => True) (fun file : File => File.blank file.id) id
    (fun file => writeSigned file.nameHash) fun file hfile => (yields_signed.map _).mono ?_).mono ?_
  · rintro _ b ⟨n, ⟨hn, -⟩, rfl⟩
    exact ⟨{ file with nameHash := n }, trivial, hblank file hfile, rfl, hn⟩
  · rintro _ b ⟨named, -, hb, rfl, hw⟩
    rw [List.map_id]
    exact ⟨hb, hw⟩

theorem yields_readFiles (wide hasNames : Bool) (groups : List Group) (hbare : ∀ g ∈ groups, g.bare = g) :
    Yields (readFiles wide hasNames groups) fun gs b => ∃ files : List (IdList wide),
      gs.map Group.bare = groups ∧ gs.map Group.fileIds = files.map IdList.entries ∧
      b = files.flatMap IdList.count ++ files.flatMap IdList.steps
        ++ writeColumn hasNames gs (fun g => g.files.flatMap fun file => writeSigned file.nameHash) := by
  unfold readFiles
  rw [← bind_assoc]
  refine (yields_readFileIds wide groups hbare).bind ?_
  rintro listed b ⟨files, hgroups, hlisted, hids, rfl⟩
  refine (yields_column (P := fun _ => True) Group.unnamed
    (fun g => g.files.flatMap fun file => writeSigned file.nameHash) ?_ ?_).mono ?_
  · intro _ g hg
    refine ((yields_fileNames g.files (congrArg Group.files (hlisted g hg))).map _).mono ?_
    rintro _ b ⟨named, ⟨hnamed, hb⟩, rfl⟩
    exact ⟨trivial, congrArg (fun files => { g with files }) hnamed, hb⟩
  · intro _ g hg
    exact ⟨trivial, hlisted g hg⟩
  · rintro gs _ ⟨-, rfl, rfl⟩
    rw [List.map_map] at hgroups hids
    exact ⟨files, hgroups, (List.map_congr_left fun g _ => g.fileIds_unnamed.symm).trans hids, rfl⟩

/-! ## Whole indexes -/

/-- How an index is spelled, which it does not say itself. -/
structure Spelling (index : ReferenceIndex) where
  flags : UInt8
  groups : IdList (isWide index.protocol)
  files : List (IdList (isWide index.protocol))
  hasNames : index.hasNames = (flags &&& 1 != 0)
  hasDigests : index.hasDigests = (flags &&& 2 != 0)
  hasLengths : index.hasLengths = (flags &&& 4 != 0)
  hasUncompressedChecksums : index.hasUncompressedChecksums = (flags &&& 8 != 0)
  ids_eq : index.groups.map Group.id = groups.entries
  fileIds_eq : index.groups.map Group.fileIds = files.map IdList.entries
  length_columns : index.columns.length = index.rowSize * index.groups.length

def Spelling.behind {index : ReferenceIndex} (s : Spelling index) : Bytes :=
  [s.flags] ++ s.groups.count ++ s.groups.steps ++ index.columns
    ++ s.files.flatMap IdList.count ++ s.files.flatMap IdList.steps ++ index.fileNames

theorem columns_bare (index : ReferenceIndex) (groups : List Group) :
    columns { index with groups := groups.map Group.bare } = columns { index with groups } := by
  unfold columns
  simp only [writeColumn_map]
  rfl

theorem yields_readBehind (protocol : UInt8) (version : Int32) :
    Yields (readBehind protocol version) fun index b =>
    index.protocol = protocol ∧ index.version = version ∧ ∃ s : Spelling index, b = s.behind := by
  unfold readBehind
  refine (Cursor.yields_u8.mapError Error.outOfBounds).bind ?_
  rintro flags _ rfl
  refine (yields_readId _).bind fun count bcount hcount => ?_
  refine (yields_readIdList _ count).bind ?_
  rintro _ steps ⟨ids, rfl, hl, hs⟩
  refine (yields_readColumns _ ?_).bind ?_
  · intro g hg
    obtain ⟨id, -, rfl⟩ := List.mem_map.mp hg
    rfl
  rintro groups _ ⟨hbare, hblank, rfl, hlc⟩
  refine ((yields_readFiles _ _ groups hbare).map _).mono ?_
  rintro _ _ ⟨gs, ⟨files, rfl, hfiles, rfl⟩, rfl⟩
  rw [columns_bare] at hlc ⊢
  rw [List.length_map] at hlc
  have hids := congrArg (List.map Group.id) hblank
  simp only [List.map_map] at hids
  refine ⟨rfl, rfl,
    ⟨flags, ⟨ids, bcount, steps, hl ▸ hcount, hs⟩, files, rfl, rfl, rfl, rfl, ?_, hfiles, hlc⟩, ?_⟩
  · exact hids.trans (List.map_id _)
  · unfold Spelling.behind
    simp only [List.append_assoc]
    rfl

theorem yields_readIndex : Yields readIndex fun index b => ∃ s : Spelling index,
    b = [index.protocol] ++ (if isVersioned index.protocol then writeSigned index.version else [])
      ++ s.behind := by
  rw [readIndex_eq]
  refine (Cursor.yields_u8.mapError Error.outOfBounds).bind ?_
  rintro protocol _ rfl
  split
  · exact Cursor.yields_throw
  · split
    · rename_i hv
      refine yields_signed.bind fun version bversion hversion => (yields_readBehind protocol version).mono ?_
      rintro index _ ⟨rfl, rfl, s, rfl⟩
      refine ⟨s, ?_⟩
      rw [if_pos hv, hversion.1, List.append_assoc]
    · rename_i hv
      refine (yields_readBehind protocol 0).mono ?_
      rintro index _ ⟨rfl, -, s, rfl⟩
      refine ⟨s, ?_⟩
      rw [if_neg hv, List.append_nil]

theorem spelling_of_ofBytes {buf : Bytes} {index : ReferenceIndex} (h : ofBytes buf = .ok index) :
    ∃ (s : Spelling index) (c : Cursor), readIndex (.ofBytes buf) = .ok (index, c) ∧ buf = [index.protocol]
      ++ (if isVersioned index.protocol then writeSigned index.version else []) ++ s.behind ++ c.rest := by
  obtain ⟨⟨_, c⟩, hr, rfl⟩ := map_eq_ok (f := Prod.fst) h
  obtain ⟨_, hb, s, rfl⟩ := yields_readIndex _ _ _ hr
  rw [Cursor.rest_ofBytes] at hb
  exact ⟨s, c, hr, hb⟩

end Js5.ReferenceIndex
