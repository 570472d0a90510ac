import Js5.Proofs.ReferenceIndex.Extent
import Js5.Proofs.ReferenceIndex.Sums

/-!
# Indexes whose ids never wrap

The lists of ids are read one after the other; the first step that leads out of 32 bits is what the index is
refused for.
-/

namespace Js5.ReferenceIndex

open Cursor (Triple triple_pure bind_of_ok bind_of_error)

/-! ## The lists of an index -/

def fileLists (wide : Bool) : (counts : List UInt32) → Cursor → List Listing
  | [], _ => []
  | count :: counts, c =>
    (Listing.ofCursor wide count c).1 ::
      match (Listing.ofCursor wide count c).2 with
      | .error _ => []
      | .ok c => fileLists wide counts c

/-- Every list of ids that is read from the bytes: that of the groups, and those of their files. -/
def idLists (b : Bytes) : List Listing :=
  match readHeading (.ofBytes b) with
  | .error _ => []
  | .ok (h, c) =>
    (Listing.ofCursor (isWide h.protocol) h.count c).1 ::
      match readTable h c with
      | .error _ => []
      | .ok ((_, counts), c) => fileLists (isWide h.protocol) counts c

/-- The lists that were read, and what came of reading them: a value with `R` if all of them fit; if the
last of them overflows, just this error; and else another one. -/
inductive Traced {α : Type} (R : α → Prop) : List Listing → Except Error α → Prop
  | fits {lists : List Listing} {v : α} (h : ∀ l ∈ lists, l.Fits) (hv : R v) : Traced R lists (.ok v)
  | cut {lists : List Listing} {e : Error} (h : ∀ l ∈ lists, l.Fits) (he : e.IsOther) :
    Traced R lists (.error e)
  | overflow {earlier : List Listing} {l : Listing} {p : UInt32} (h : ∀ l' ∈ earlier, l'.Fits)
    (hl : l.OverflowsAt p) :
    Traced R (earlier ++ [l]) (.error (.idOverflow p))

namespace Traced

variable {α β : Type} {lists : List Listing} {Q : α → Prop} {R : β → Prop}

theorem cons {l : Listing} {r : Except Error α} (hl : l.Fits) (h : Traced Q lists r) :
    Traced Q (l :: lists) r := by
  cases h with
  | fits h hv => exact .fits (List.forall_mem_cons.mpr ⟨hl, h⟩) hv
  | cut h he => exact .cut (List.forall_mem_cons.mpr ⟨hl, h⟩) he
  | overflow h hl' => exact .overflow (List.forall_mem_cons.mpr ⟨hl, h⟩) hl'

theorem of_ok {v : α} (h : Traced Q lists (.ok v)) : (∀ l ∈ lists, l.Fits) ∧ Q v := by
  cases h with
  | fits h hv => exact ⟨h, hv⟩

theorem mono {S : α → Prop} {r : Except Error α} (h : Traced Q lists r) (hs : ∀ v, Q v → S v) :
    Traced S lists r := by
  cases h with
  | fits h hv => exact .fits h (hs _ hv)
  | cut h he => exact .cut h he
  | overflow h hl => exact .overflow h hl

theorem of_error {e : Error} (h : Traced Q lists (.error e)) : Traced R lists (.error e) := by
  cases h with
  | cut h he => exact .cut h he
  | overflow h hl => exact .overflow h hl

variable {read : Read α} {f : α → Read β} {c : Cursor}

theorem bind {P : α → Prop} {S : β → Prop} (h : Traced (fun p => P p.1) lists (read c))
    (hf : ∀ v, P v → Triple (fun _ => True) (f v) (fun w _ => S w) Error.IsOther) :
    Traced (fun p => S p.1) lists ((read >>= f) c) := by
  cases hr : read c with
  | error e =>
    rw [hr] at h
    rw [bind_of_error hr]
    exact h.of_error
  | ok p =>
    rw [hr] at h
    obtain ⟨hfits, hp⟩ := h.of_ok
    rw [bind_of_ok hr]
    cases hs : f p.1 p.2 with
    | error e => exact .cut hfits ((hf p.1 hp).of_error trivial hs)
    | ok q => exact .fits hfits ((hf p.1 hp).of_ok trivial hs)

theorem next {P : α → Prop} {S : β → Prop} {l : Listing} (h : Traced (fun p => P p.1) [l] (read c))
    (herr : ∀ e, read c = .error e → lists = [])
    (hok : ∀ v c', read c = .ok (v, c') → P v → Traced (fun p => S p.1) lists (f v c')) :
    Traced (fun p => S p.1) (l :: lists) ((read >>= f) c) := by
  cases hr : read c with
  | error e =>
    rw [hr] at h
    rw [herr e hr, bind_of_error hr]
    exact h.of_error
  | ok p =>
    rw [hr] at h
    obtain ⟨hfits, hp⟩ := h.of_ok
    rw [bind_of_ok hr]
    exact (hok p.1 p.2 hr hp).cons (hfits l (List.mem_singleton_self l))

theorem overflow_iff {r : Except Error α} (h : Traced Q lists r) (p : UInt32) :
    r = .error (.idOverflow p) ↔
      ∃ earlier l, lists = earlier ++ [l] ∧ (∀ l' ∈ earlier, l'.Fits) ∧ l.OverflowsAt p := by
  constructor
  · intro hr
    subst hr
    cases h with
    | cut h he => exact absurd rfl (he p)
    | overflow h hl => exact ⟨_, _, rfl, h, hl⟩
  · intro hp
    obtain ⟨earlier, l, hlists, -, hl⟩ := hp
    cases h with
    | fits h hv => exact absurd (h l (by simp [hlists])) hl.not_fits
    | cut h he => exact absurd (h l (by simp [hlists])) hl.not_fits
    | overflow h hl' =>
      cases (List.append_inj' hlists rfl).2
      rw [hl'.unique hl]

end Traced

/-! ## What is read with the lists -/

theorem traced_readIdList (wide : Bool) (count : UInt32) (c : Cursor) :
    Traced (fun p => p.1 = (Listing.ofCursor wide count c).1.ids.eraseReps)
      [(Listing.ofCursor wide count c).1]
      (readIdList wide count c) := by
  have h := Listing.outcome_ofCursor wide count c
  rw [readIdList_eq]
  revert h
  generalize Listing.ofCursor wide count c = p
  intro h
  obtain ⟨l, r⟩ := p
  cases h with
  | complete h => exact .fits (by simpa using h.fits) rfl
  | cut h he => exact .cut (by simpa using h.fits) he
  | overflow h hle => exact Traced.overflow (List.forall_mem_nil _) (h.overflowsAt hle)

structure IsTable (h : Heading) (ids : List UInt32) (table : ReferenceIndex × List UInt32) : Prop where
  ids_eq : table.1.groups.map Group.id = ids
  protocol_eq : table.1.protocol = h.protocol
  narrow (n : UInt32) : n ∈ table.2 → isWide h.protocol = false → IsNarrow n

theorem traced_readTable (h : Heading) (c : Cursor) :
    Traced (fun p => IsTable h (Listing.ofCursor (isWide h.protocol) h.count c).1.ids.eraseReps p.1)
      [(Listing.ofCursor (isWide h.protocol) h.count c).1] (readTable h c) := by
  refine Traced.bind (P := fun ids => ids = _) (S := IsTable h _) (traced_readIdList _ h.count c)
    fun ids hids => ?_
  refine Triple.bind (other_readColumns _) fun groups => .known fun hg => ?_
  have hcounts : Triple (fun _ => True) (groups.mapM fun _ => readId (isWide h.protocol))
      (fun counts _ => ∀ n ∈ counts, isWide h.protocol = false → IsNarrow n) Error.IsOther :=
    (Cursor.triple_mapM (fun _ => ()) (fun _ => ())
      (fun _ => (other_readId _).post fun _ _ hn => ⟨hn, rfl⟩) groups).post fun _ _ hn => hn.1
  refine hcounts.bind fun counts => .known fun hn => triple_pure fun _ _ => ⟨?_, rfl, hn⟩
  rw [hg, ← hids]
  simp [Heading.blank, Group.blank, Function.comp_def]

structure AreListed (ids : List UInt32) (files : List Listing) (groups : List Group) : Prop where
  ids_eq : groups.map Group.id = ids
  fileIds_eq : groups.map Group.fileIds = files.map fun l => l.ids.eraseReps

theorem fileIds_blank (g : Group) (ids : List UInt32) :
    Group.fileIds { g with files := ids.map File.blank } = ids := by
  simp [Group.fileIds, File.blank, Function.comp_def]

theorem fileLists_cons (wide : Bool) (count : UInt32) (counts : List UInt32) (c : Cursor) :
    fileLists wide (count :: counts) c = (Listing.ofCursor wide count c).1 ::
      match readIdList wide count c with
      | .error _ => []
      | .ok (_, c) => fileLists wide counts c := by
  rw [readIdList_eq, fileLists]
  cases (Listing.ofCursor wide count c).2 with
  | error e => rfl
  | ok c => rfl

theorem traced_files (wide : Bool) : ∀ (rows : List (Group × UInt32)) (c : Cursor),
    Traced (fun p => AreListed (rows.map fun row => row.1.id) (fileLists wide (rows.map Prod.snd) c) p.1)
      (fileLists wide (rows.map Prod.snd) c)
      (rows.mapM (fun (g, count) =>
        return { g with files := (← readIdList wide count).map File.blank } : Group × UInt32 → Read Group) c)
  | [], c => .fits (by simp [fileLists]) ⟨rfl, rfl⟩
  | (g, count) :: rows, c => by
    -- the list of this row comes first; if it cannot be read, it is the last
    simp only [List.mapM_cons, List.map_cons, bind_assoc, pure_bind]
    rw [fileLists_cons]
    refine Traced.next (P := fun ids => ids = _) (traced_readIdList wide count c) (fun e he => by rw [he])
      fun ids c' hr hids => ?_
    rw [hr]
    refine Traced.bind (traced_files wide rows c') fun groups hg => triple_pure fun _ _ => ⟨?_, ?_⟩
    · simp [hg.ids_eq]
    · rw [List.map_cons, List.map_cons, fileIds_blank, hg.fileIds_eq, hids]

theorem traced_readRows {index : ReferenceIndex} {counts : List UInt32}
    (hl : counts.length = index.groups.length) (c : Cursor) :
    Traced (fun p => AreListed (index.groups.map Group.id) (fileLists (isWide index.protocol) counts c)
        p.1.groups) (fileLists (isWide index.protocol) counts c) (readRows index counts c) := by
  have hrows := traced_files (isWide index.protocol) (index.groups.zip counts) c
  rw [List.map_snd_zip (Nat.le_of_eq hl)] at hrows
  refine Traced.bind (S := fun index' => AreListed _ _ (groups index')) hrows fun groups hg => ?_
  refine (other_fileNames _ _).bind fun groups' => .known fun hnames => triple_pure fun _ _ => ?_
  have hids := congrArg (List.map Prod.fst) hnames
  have hfiles := congrArg (List.map Prod.snd) hnames
  simp only [List.map_map, Function.comp_def] at hids hfiles
  have hrows := congrArg (List.map Group.id) (List.map_fst_zip (Nat.le_of_eq hl.symm))
  rw [List.map_map] at hrows
  exact ⟨hids.trans (hg.ids_eq.trans hrows), hfiles.trans hg.fileIds_eq⟩

/-! ## Whole indexes -/

/-- The ids of the index are those of the lists, of which the first is that of its groups. -/
def IsListed (lists : List Listing) (index : ReferenceIndex) : Prop :=
  ∃ l files, lists = l :: files ∧ AreListed l.ids.eraseReps files index.groups

theorem traced_ofBytes (b : Bytes) : Traced (IsListed (idLists b)) (idLists b) (ofBytes b) := by
  have h : Traced (fun p => IsListed (idLists b) p.1) (idLists b) (readIndex (.ofBytes b)) := by
    rw [readIndex_eq_readHeading]
    unfold idLists
    cases hh : readHeading (.ofBytes b) with
    | error e =>
      rw [bind_of_error hh]
      exact .cut (by simp) ((other_readHeading b).of_error (Cursor.rest_ofBytes b) hh)
    | ok p =>
      obtain ⟨h, c⟩ := p
      rw [bind_of_ok hh]
      dsimp only
      refine Traced.next (P := IsTable h _) (S := IsListed _) (traced_readTable h c) (fun e he => by rw [he])
        fun table c' ht hi => ?_
      rw [ht]
      have hrows := traced_readRows (length_counts ht) c'
      rw [hi.ids_eq, hi.protocol_eq] at hrows
      exact hrows.mono fun q hg => ⟨_, _, rfl, hg⟩
  show Traced _ _ (Prod.fst <$> readIndex (.ofBytes b))
  cases hr : readIndex (.ofBytes b) with
  | error e =>
    rw [hr] at h
    exact h.of_error
  | ok p =>
    rw [hr] at h
    exact .fits h.of_ok.1 h.of_ok.2

theorem mem_fileLists {wide : Bool} {l : Listing} :
    ∀ {counts : List UInt32} {c : Cursor}, l ∈ fileLists wide counts c →
    ∃ count ∈ counts, ∃ c', l = (Listing.ofCursor wide count c').1
  | [], _, h => absurd h List.not_mem_nil
  | count :: counts, c, h => by
    rw [fileLists] at h
    obtain h | h := List.mem_cons.mp h
    · exact ⟨count, List.mem_cons_self, c, h⟩
    · cases hr : (Listing.ofCursor wide count c).2 with
      | error e =>
        rw [hr] at h
        cases h
      | ok c' =>
        rw [hr] at h
        obtain ⟨n, hn, hl⟩ := mem_fileLists h
        exact ⟨n, List.mem_cons_of_mem _ hn, hl⟩

theorem mem_idLists {b : Bytes} {l : Listing} (h : l ∈ idLists b) :
    ∃ protocol count c, b.head? = some protocol ∧
    (isWide protocol = false → IsNarrow count) ∧ l = (Listing.ofCursor (isWide protocol) count c).1 := by
  unfold idLists at h
  cases hh : readHeading (.ofBytes b) with
  | error e =>
    rw [hh] at h
    cases h
  | ok p =>
    rw [hh] at h
    obtain ⟨heading, c⟩ := p
    obtain ⟨hp, hn⟩ := (other_readHeading b).of_ok (Cursor.rest_ofBytes b) hh
    obtain h | h := List.mem_cons.mp h
    · exact ⟨_, _, c, hp, hn, h⟩
    · have ht := traced_readTable heading c
      cases hr : readTable heading c with
      | error e =>
        rw [hr] at h
        cases h
      | ok q =>
        rw [hr] at h ht
        obtain ⟨count, hc, c', hl⟩ := mem_fileLists h
        exact ⟨_, count, c', hp, ht.of_ok.2.narrow count hc, hl⟩

variable {b : Bytes} {l : Listing}

theorem exact_of_mem_idLists (h : l ∈ idLists b) : l.Exact := by
  obtain ⟨protocol, count, c, -, -, rfl⟩ := mem_idLists h
  exact (Listing.outcome_ofCursor _ count c).exact

/-! ## Ids of two bytes -/

def IsNarrowIndex (b : Bytes) : Prop := b.head? = some 5 ∨ b.head? = some 6

theorem total_le_of_mem_idLists (hb : IsNarrowIndex b) (h : l ∈ idLists b) (n : Nat) :
    total (l.steps.take n) ≤ 65535 * 65535 := by
  obtain ⟨protocol, count, c, hp, hn, rfl⟩ := mem_idLists h
  have hw : isWide protocol = false := by
    obtain hb | hb := hb
    · cases hp.symm.trans hb
      rfl
    · cases hp.symm.trans hb
      rfl
  rw [hw]
  exact Listing.total_ofCursor_le (hn hw) c

theorem id_le_of_mem_idLists (hb : IsNarrowIndex b) (h : l ∈ idLists b) :
    ∀ id ∈ l.ids, id.toNat ≤ 65535 * 65535 := by
  intro id hid
  obtain ⟨i, hi⟩ := List.mem_iff_getElem?.mp hid
  rw [exact_of_mem_idLists h i id hi]
  exact total_le_of_mem_idLists hb h (i + 1)

theorem not_overflowsAt_of_mem_idLists (hb : IsNarrowIndex b) (h : l ∈ idLists b) (p : UInt32) :
    ¬ l.OverflowsAt p := by
  intro ho
  obtain ⟨front, step, hs, -, -, hle⟩ := ho
  have htotal := total_le_of_mem_idLists hb h l.steps.length
  rw [List.take_length, hs, total_append, total_singleton] at htotal
  omega

/-! ## Accepted indexes -/

theorem AreListed.id_mem {ids : List UInt32} {files : List Listing} {groups : List Group}
    (h : AreListed ids files groups) {g : Group} (hg : g ∈ groups) : g.id ∈ ids := by
  rw [← h.ids_eq]
  exact List.mem_map_of_mem hg

theorem AreListed.fileId_mem {ids : List UInt32} {files : List Listing} {groups : List Group}
    (h : AreListed ids files groups) {g : Group} (hg : g ∈ groups) {file : File} (hf : file ∈ g.files) :
    ∃ l ∈ files, file.id ∈ l.ids := by
  have hm := List.mem_map_of_mem (f := Group.fileIds) hg
  rw [h.fileIds_eq] at hm
  obtain ⟨l, hl, he⟩ := List.mem_map.mp hm
  refine ⟨l, hl, mem_eraseReps.mp ?_⟩
  rw [he]
  exact List.mem_map_of_mem hf

/-- **Ids never wrap.** Every id is the sum of the steps up to it, and an index is refused for an overflow
just when the last step of a list, after others that fit, leads out of 32 bits. With ids of two bytes
nothing can overflow. -/
theorem ids_never_wrap (b : Bytes) :
    (∀ l ∈ idLists b, l.Exact) ∧
    (∀ p, ofBytes b = .error (.idOverflow p) ↔
      ∃ earlier l, idLists b = earlier ++ [l] ∧ (∀ l' ∈ earlier, l'.Fits) ∧ l.OverflowsAt p) ∧
    (IsNarrowIndex b →
      (∀ p, ofBytes b ≠ .error (.idOverflow p)) ∧
        ∀ l ∈ idLists b, ∀ id ∈ l.ids, id.toNat ≤ 65535 * 65535) ∧
    ∀ index, ofBytes b = .ok index →
      (∀ l ∈ idLists b, l.Fits) ∧ IsListed (idLists b) index ∧
      (IsNarrowIndex b → ∀ g ∈ index.groups,
        g.id.toNat ≤ 65535 * 65535 ∧ (∀ file ∈ g.files, file.id.toNat ≤ 65535 * 65535) ∧
          g.capacity < 2 ^ 32) ∧
      ∀ g ∈ index.groups,
        ((∀ file ∈ g.files, file.id ≠ 0xffffffff) → g.capacity < 2 ^ 32) ∧
          (g.files = [] → g.capacity = 0) ∧
        (g.files ≠ [] →
          ∃ file ∈ g.files, (∀ other ∈ g.files, other.id ≤ file.id) ∧ g.capacity = file.id.toNat + 1) := by
  have htraced := traced_ofBytes b
  refine ⟨fun l hl => exact_of_mem_idLists hl, htraced.overflow_iff,
    fun hb => ⟨fun p hp => ?_, fun l hl => ?_⟩,
    fun index h => ?_⟩
  · obtain ⟨earlier, l, hlists, -, hl⟩ := (htraced.overflow_iff p).mp hp
    exact not_overflowsAt_of_mem_idLists hb (by simp [hlists]) p hl
  · exact id_le_of_mem_idLists hb hl
  · rw [h] at htraced
    obtain ⟨hfits, hlisted⟩ := htraced.of_ok
    refine ⟨hfits, hlisted, fun hb g hg => ?_, fun g hg => ?_⟩
    · obtain ⟨l, files, hlists, ha⟩ := hlisted
      have hgroup := id_le_of_mem_idLists hb (l := l) (by simp [hlists]) g.id
        (mem_eraseReps.mp (ha.id_mem hg))
      have hfiles : ∀ file ∈ g.files, file.id.toNat ≤ 65535 * 65535 := by
        intro file hf
        obtain ⟨l', hl', hid⟩ := ha.fileId_mem hg hf
        exact id_le_of_mem_idLists hb (by simp [hlists, hl']) file.id hid
      refine ⟨hgroup, hfiles, Group.capacity_lt fun file hf he => ?_⟩
      have hle := hfiles file hf
      rw [he] at hle
      exact absurd hle (by decide)
    · exact ⟨Group.capacity_lt, Group.capacity_of_ascending (ascending_fileIds_of_ofBytes h hg)⟩

/-- The third step leads out of 32 bits; and a group with two files. -/
theorem ids_never_wrap_two_indexes :
    let wide : Bytes := [7, 0, 0, 0, 0, 0, 0, 3, 255, 255, 255, 255, 255, 255, 255, 255, 0, 2]
    let narrow : Bytes := [5, 0, 0, 1, 0, 9, 1, 2, 3, 4, 5, 6, 7, 8, 0, 2, 0, 1, 0, 3]
    (∃ earlier l, idLists wide = earlier ++ [l] ∧ (∀ l' ∈ earlier, l'.Fits) ∧ l.OverflowsAt 0xfffffffe) ∧
    (∀ p, ofBytes narrow ≠ .error (.idOverflow p)) ∧
    ∃ index, ofBytes narrow = .ok index ∧ (∀ l ∈ idLists narrow, l.Fits) ∧
      index.groups.map Group.capacity = [5] := by
  intro wide narrow
  have hwide : ofBytes wide = .error (.idOverflow 0xfffffffe) := by decide +kernel
  have hnarrow : ofBytes narrow = .ok ⟨5, 0, false, false, false, false,
      [⟨9, -1, 0x05060708, 0x01020304, 0, 0, 0, [], [⟨1, -1⟩, ⟨4, -1⟩]⟩]⟩ := by decide +kernel
  obtain ⟨-, -, hnever, hread⟩ := ids_never_wrap narrow
  exact ⟨((ids_never_wrap wide).2.1 _).mp hwide, (hnever (.inl rfl)).1, _, hnarrow, (hread _ hnarrow).1, rfl⟩

end Js5.ReferenceIndex
