import Js5.Proofs.ReferenceIndex.Fields

/-!
# Where a reference index ends

The numbers of groups and files in an index are believed only as far as there are bytes for so many ids.
-/

namespace Js5.ReferenceIndex

open Cursor (Takes Yields)

/-! ## How many ids there are said to be -/

structure Heading where
  protocol : UInt8
  version : Int32
  flags : UInt8
  count : UInt32

def Heading.blank (h : Heading) (ids : List UInt32) : ReferenceIndex where
  protocol := h.protocol
  version := h.version
  hasNames := h.flags &&& 1 != 0
  hasDigests := h.flags &&& 2 != 0
  hasLengths := h.flags &&& 4 != 0
  hasUncompressedChecksums := h.flags &&& 8 != 0
  groups := ids.map Group.blank

def readHeading : Read Heading := do
  let protocol ← Cursor.u8
  if protocol < 5 || 7 < protocol then
    throw (.unsupportedProtocol protocol)
  let version ← if isVersioned protocol then liftM Cursor.i32 else pure 0
  let flags ← Cursor.u8
  return ⟨protocol, version, flags, ← readId (isWide protocol)⟩

def readTable (h : Heading) : Read (ReferenceIndex × List UInt32) := do
  let index := h.blank (← readIdList (isWide h.protocol) h.count)
  let groups ← readColumns index
  return ({ index with groups }, ← groups.mapM fun _ => readId (isWide h.protocol))

def readRows (index : ReferenceIndex) (counts : List UInt32) : Read ReferenceIndex := do
  let groups ← (index.groups.zip counts).mapM fun (g, count) =>
    return { g with files := (← readIdList (isWide index.protocol) count).map File.blank }
  let groups ← column index.hasNames groups fun g =>
    return { g with files := ← g.files.mapM fun file => return { file with nameHash := ← Cursor.i32 } }
  return { index with groups }

theorem readIndex_eq_readHeading : readIndex = (do
    let heading ← readHeading
    let (index, counts) ← readTable heading
    readRows index counts) := by
  rw [readIndex_eq]
  unfold readHeading
  rw [bind_assoc]
  refine bind_congr fun protocol => ?_
  split
  · rfl
  · split
    · simp only [bind_assoc, pure_bind, readBehind, readFiles, readTable, readRows]
      rfl
    · simp only [bind_assoc, pure_bind, readBehind, readFiles, readTable, readRows]
      rfl

/-! ## How many bytes ids take -/

theorem takes_readId (wide : Bool) : Takes 2 (readId wide) := by
  unfold readId
  split
  · exact takes_smart.mapError Error.outOfBounds
  · have hread := (Cursor.takes_take 2).map fun b => UInt16.ofNat (Bytes.toNat b)
    exact Takes.map (hread.mapError Error.outOfBounds) _

theorem takes_readIds (wide : Bool) : ∀ (count : Nat) (last : UInt32) (done : Array UInt32),
    Takes (2 * count) (readIds wide last done count)
  | 0, _, done => Cursor.yields_pure (Nat.zero_le _)
  | count + 1, last, done => by
    rw [Nat.mul_succ, Nat.add_comm]
    refine (takes_readId wide).bind fun delta => ?_
    split
    · exact takes_readIds wide count _ _
    · exact Cursor.yields_throw

theorem takes_readIdList (wide : Bool) (count : UInt32) : Takes (2 * count.toNat) (readIdList wide count) :=
  (takes_readIds wide count.toNat 0 #[]).map _

theorem takes_readTable (h : Heading) : Takes (2 * h.count.toNat) (readTable h) := by
  refine Takes.bind (n := 0) (takes_readIdList _ _) fun ids => ?_
  refine ((plain_readColumns _).bind fun groups => ?_).takes
  exact (Plain.mapM (fun _ => plain_readId _) groups).map _

theorem takes_readRows {index : ReferenceIndex} {counts : List UInt32}
    (h : counts.length = index.groups.length) :
    Takes (counts.map fun count => 2 * count.toNat).sum (readRows index counts) := by
  have hsum :
      (index.groups.zip counts).map (fun p => 2 * p.2.toNat) = counts.map fun count => 2 * count.toNat := by
    have := congrArg (List.map fun count : UInt32 => 2 * count.toNat) (List.map_snd_zip (Nat.le_of_eq h))
    rwa [List.map_map] at this
  rw [← hsum]
  have hfiles (p : Group × UInt32) : Takes (2 * p.2.toNat) (do
      return { p.1 with files := (← readIdList (isWide index.protocol) p.2).map File.blank }) :=
    (takes_readIdList _ p.2).map _
  refine Takes.bind (n := 0) (Takes.mapM hfiles _) fun groups => ?_
  refine (Plain.map (plain_column _ _ fun g => ?_) _).takes
  exact (Plain.mapM (fun file => plain_i32.map _) g.files).map _

theorem length_counts {h : Heading} {c c' : Cursor} {index : ReferenceIndex} {counts : List UInt32}
    (hr : readTable h c = .ok ((index, counts), c')) : counts.length = index.groups.length := by
  obtain ⟨ids, c₁, -, hr⟩ := Cursor.ok_of_bind hr
  obtain ⟨groups, c₂, -, hr⟩ := Cursor.ok_of_bind hr
  obtain ⟨counts, c₃, hn, hr⟩ := Cursor.ok_of_bind hr
  cases hr
  obtain ⟨-, -, rows, -, hrows, rfl, -⟩ := Yields.mapM (G := fun _ : Group × UInt32 × Bytes => True) Prod.fst
    (fun t => t.2.1) (fun t => t.2.2)
    (fun g _ => (takes_readId _).mono fun n b _ => ⟨(g, n, b), trivial, rfl, rfl, rfl⟩) _ _ _ hn
  rw [← hrows, List.length_map, List.length_map]

/-! ## Where an index ends -/

theorem enough_of_ofBytes {buf : Bytes} {index : ReferenceIndex} (h : ofBytes buf = .ok index)
    {heading : Heading} {c : Cursor} (hh : readHeading (.ofBytes buf) = .ok (heading, c)) :
    2 * heading.count.toNat ≤ c.remaining ∧
      ∀ table counts c', readTable heading c = .ok ((table, counts), c') →
        (counts.map fun count => 2 * count.toNat).sum ≤ c'.remaining := by
  obtain ⟨p, hr, -⟩ := map_eq_ok (f := Prod.fst) h
  change readIndex _ = _ at hr
  rw [readIndex_eq_readHeading, Cursor.bind_of_ok hh] at hr
  obtain ⟨⟨table', counts'⟩, c₁, ht, hrows⟩ := Cursor.ok_of_bind hr
  refine ⟨Nat.le_trans (Nat.le_add_right _ _) ((takes_readTable heading).le ht),
    fun table counts c' ht' => ?_⟩
  rw [ht] at ht'
  cases ht'
  exact Nat.le_trans (Nat.le_add_right _ _) ((takes_readRows (length_counts ht)).le hrows)

/-- **Indexes say where they end.** An index that is read ends at some place of the bytes: what is behind it
makes no difference, and if it is cut short before it, the error is that bytes are missing. -/
theorem ofBytes_delimited (buf : Bytes) :
    (∀ index, ofBytes buf = .ok index → ∃ n ≤ buf.length,
      (∀ extra, ofBytes (buf.take n ++ extra) = .ok index) ∧
      ∀ m < n, ∃ s, ofBytes (buf.take m) = .error (.outOfBounds s)) ∧
    ∀ heading c, readHeading (.ofBytes buf) = .ok (heading, c) →
      (c.remaining < 2 * heading.count.toNat → ∃ e, ofBytes buf = .error e) ∧
      ∀ table counts c', readTable heading c = .ok ((table, counts), c') →
        c'.remaining < (counts.map fun count => 2 * count.toNat).sum → ∃ e, ofBytes buf = .error e := by
  constructor
  · intro index h
    obtain ⟨n, hn, hextra, hshort⟩ := plain_readIndex.delimited.run' h
    refine ⟨n, hn, hextra, fun m hm => ?_⟩
    obtain ⟨_, he, s, rfl⟩ := hshort m hm
    exact ⟨s, he⟩
  · intro heading c hh
    cases hr : ofBytes buf with
    | error e => exact ⟨fun _ => ⟨e, rfl⟩, fun _ _ _ _ _ => ⟨e, rfl⟩⟩
    | ok index =>
      obtain ⟨hgroups, hfiles⟩ := enough_of_ofBytes hr hh
      exact ⟨fun hlt => absurd hgroups (Nat.not_le.mpr hlt),
        fun table counts c' ht hlt => absurd (hfiles table counts c' ht) (Nat.not_le.mpr hlt)⟩

/-- A single group, counted in four bytes, of one file; and 65535 groups where there are bytes for one. -/
theorem ofBytes_delimited_wide :
    let buf : Bytes := [7, 0, 0, 0, 9, 0, 0x80, 0, 0, 1, 0, 3, 1, 2, 3, 4, 5, 6, 7, 8, 0, 1, 0, 2, 99]
    (∃ n ≤ buf.length,
      (∀ extra, ofBytes (buf.take n ++ extra) = ofBytes buf) ∧
      ∀ m < n, ∃ s, ofBytes (buf.take m) = .error (.outOfBounds s)) ∧
    ∃ e, ofBytes [5, 0, 0xff, 0xff, 0, 1] = .error e := by
  intro buf
  have hread : ofBytes buf = .ok ⟨7, 9, false, false, false, false,
      [⟨3, -1, 0x05060708, 0x01020304, 0, 0, 0, [], [⟨2, -1⟩]⟩]⟩ := by decide +kernel
  rw [hread]
  refine ⟨(ofBytes_delimited buf).1 _ hread, ((ofBytes_delimited [5, 0, 0xff, 0xff, 0, 1]).2 _ _ rfl).1 ?_⟩
  decide

end Js5.ReferenceIndex
