import Js5.Proofs.Archive.Verification
import Js5.Proofs.Cache.Kept
import Js5.Proofs.Store.Freezing

/-!
# Snapshots

Once a file of an archive has been read, a cache on disk has taken in all that it needs to answer for the
archive: the data file, the index file and the archive itself. From then on the answers about the archive
are always the same, whatever happens to the index files and whatever else is asked.
-/

namespace Js5

/-! ## What a call changes -/

/-- The store is as it was, except that it may have read more index files. -/
structure DiskStore.Later (s t : DiskStore) : Prop where
  same : t = { s with index := t.index }
  kept (id : UInt8) (f : IndexFile) : s.index.loaded.lookup id = some f → t.index.loaded.lookup id = some f

namespace DiskStore

variable {d : Directory} {s t u : DiskStore}

theorem Later.refl (s : DiskStore) : Later s s := ⟨rfl, fun _ _ h => h⟩

theorem Later.trans (h : Later s t) (h' : Later t u) : Later s u where
  same := by rw [h'.same, h.same]
  kept id f hf := h'.kept id f (h.kept id f hf)

theorem later_load (d : Directory) (s : DiskStore) (archive : UInt8) :
    Later s { s with index := (s.index.load d archive).2 } where
  same := rfl
  kept id f hf := by
    show (s.index.load d archive).2.loaded.lookup id = some f
    rw [IndexFiles.lookup_loaded_load, hf]
    rfl

theorem later_of_leads (h : Store.Leads d s t) : Later s t := by
  induction h with
  | refl => exact .refl s
  | list _ archive ih => exact ih.trans (later_load d _ archive)
  | @read t _ archive group ih =>
    have hr : (Store.read d t archive group).2 = _ := congrArg Prod.snd (read_eq d t archive group)
    rw [hr]
    exact ih.trans (later_load d t archive)

end DiskStore

namespace Cache

theorem eq_of_load_reference {W S : Type} [Store W S] {w : W} {s : S} {options : Options} {a : Archive}
    (h : (Archive.load w s Store.referenceArchive options).1 = .ok a) :
    a = ⟨Store.referenceArchive, none, options.verifyChecksums⟩ := by
  obtain ⟨hid, hv, hi⟩ := Archive.load_ok w s h
  cases a
  cases hid
  cases hv
  cases hi.mpr (.inl rfl)
  rfl

/-! ## Snapshots -/

/-- What a cache goes by when it answers about an archive without looking for files. -/
structure Snapshot where
  store : DiskStore
  file : IndexFile
  archive : Archive

namespace Snapshot

def packed (n : Snapshot) (group : UInt32) : Except StoreError Bytes :=
  (((n.file.get? group).map Except.ok).getD (.error (.unknownGroup n.archive.id group))).bind
    (n.store.readChain n.archive.id group)

/-- The cache has the snapshot taken. The reference archive need not be kept: it is the same each time it is
loaded. -/
structure Taken (n : Snapshot) (c : Cache DiskStore) : Prop where
  store : ∃ t, c.store = some t ∧ n.store.Later t
  file : n.store.index.loaded.lookup n.archive.id = some n.file
  archive : c.archives.lookup n.archive.id = some n.archive ∨
    c.archives.lookup n.archive.id = none ∧
      n.archive = ⟨Store.referenceArchive, none, c.options.verifyChecksums⟩

variable {n : Snapshot} {c : Cache DiskStore} {t : DiskStore}

theorem Taken.load_fst (h : n.Taken c) (ht : n.store.Later t) (d : Directory) :
    (t.index.load d n.archive.id).1 = .ok n.file := by
  rw [IndexFiles.load_fst, ht.kept _ _ h.file]
  rfl

theorem Taken.read_fst (h : n.Taken c) (ht : n.store.Later t) (d : Directory) (group : UInt32) :
    (Store.read d t n.archive.id group).1 = n.packed group := by
  have hr : t.readChain n.archive.id group = n.store.readChain n.archive.id group := by
    rw [ht.same]
    rfl
  refine (congrArg Prod.fst (t.read_eq d n.archive.id group)).trans ?_
  rw [IndexFiles.lookup_eq, h.load_fst ht, hr]
  rfl

theorem Taken.archive_fst (h : n.Taken c) (ht : n.store.Later t) (d : Directory) :
    ∃ c', c.archive d t n.archive.id = (.ok n.archive, c', t) := by
  unfold Cache.archive
  rcases h.archive with ha | ⟨hl, ha⟩
  · rw [ha]
    exact ⟨c, rfl⟩
  · have hhas : t.index.hasArchive d n.archive.id = true := by
      unfold IndexFiles.hasArchive
      rw [ht.kept _ _ h.file]
      rfl
    have hload : Archive.load d t n.archive.id c.options = (.ok n.archive, t) := by
      unfold Archive.load
      rw [show Store.hasArchive d t n.archive.id = true from hhas]
      rw [ha]
      rfl
    rw [hl]
    simp only [hload]
    exact ⟨_, rfl⟩

/-! ## Answers from a snapshot -/

theorem Taken.withArchive_fst {α : Type} (h : n.Taken c) (d : Directory)
    {ask : Archive → DiskStore → Except ArchiveError α × DiskStore} {v : Except ArchiveError α}
    (hask : ∀ t, n.store.Later t → (ask n.archive t).1 = v) :
    (c.withArchive d n.archive.id ask).1 = v.mapError .archive := by
  obtain ⟨t, hc, ht⟩ := h.store
  obtain ⟨c', ha⟩ := h.archive_fst ht d
  unfold withArchive
  simp only [hc, ha]
  rw [hask t ht]

theorem Taken.read (h : n.Taken c) (d : Directory) (group : UInt32) (file : UInt16) (key : Option Xtea.Key) :
    (c.read d n.archive.id group file key).1 =
      (n.archive.readFrom group key (Archive.fileOf file) (n.packed group)).mapError .archive := by
  refine h.withArchive_fst d fun t ht => ?_
  rw [← h.read_fst ht d]
  exact Archive.readWith_fst n.archive group key _

theorem Taken.readNamed (h : n.Taken c) (d : Directory) (name : String) (file : UInt16)
    (key : Option Xtea.Key) :
    (c.readNamed d n.archive.id name file key).1 =
      ((n.archive.groupByName (nameHash name)).bind fun group =>
        n.archive.readFrom group key (Archive.fileOf file) (n.packed group)).mapError .archive := by
  refine h.withArchive_fst d fun t ht => ?_
  unfold Archive.readNamed
  cases n.archive.groupByName (nameHash name) with
  | error e => rfl
  | ok group =>
    show _ = n.archive.readFrom group key (Archive.fileOf file) (n.packed group)
    rw [← h.read_fst ht d]
    exact Archive.readWith_fst n.archive group key _

theorem Taken.readGroup (h : n.Taken c) (d : Directory) (group : UInt32) (key : Option Xtea.Key) :
    (c.readGroup d n.archive.id group key).1 =
      (n.archive.readFrom group key Archive.filesOf (n.packed group)).mapError .archive := by
  refine h.withArchive_fst d fun t ht => ?_
  rw [← h.read_fst ht d]
  exact Archive.readWith_fst n.archive group key _

theorem Taken.list (h : n.Taken c) (d : Directory) : (c.list d n.archive.id).1 = .ok n.file.groups := by
  obtain ⟨t, hc, ht⟩ := h.store
  have hl : (Store.list d t n.archive.id).1 = .ok n.file.groups := by
    refine (congrArg Prod.fst (t.index.list_eq d n.archive.id)).trans ?_
    rw [h.load_fst ht]
    rfl
  unfold Cache.list
  simp only [hc, hl]
  rfl

theorem Taken.ask_eq {c' : Cache DiskStore} (h : n.Taken c) (h' : n.Taken c') (d d' : Directory)
    {request : Call} (hr : request.archive? = some n.archive.id) :
    (c.ask d request).1 = (c'.ask d' request).1 := by
  cases request with
  | read archive group file key =>
    cases hr
    exact congrArg Answer.bytes ((h.read d group file key).trans (h'.read d' group file key).symm)
  | readNamed archive name file key =>
    cases hr
    exact congrArg Answer.bytes ((h.readNamed d name file key).trans (h'.readNamed d' name file key).symm)
  | readGroup archive group key =>
    cases hr
    exact congrArg Answer.files ((h.readGroup d group key).trans (h'.readGroup d' group key).symm)
  | list archive =>
    cases hr
    exact congrArg Answer.groups ((h.list d).trans (h'.list d').symm)
  | _ => cases hr

/-! ## A snapshot stays -/

theorem Taken.grows {d : Directory} {c' : Cache DiskStore} (h : n.Taken c) (ht : n.store.Later t)
    (hg : Grows d c t c') : n.Taken c' where
  store := by
    obtain ⟨u, hu, hl⟩ := hg.store
    exact ⟨u, hu, ht.trans (DiskStore.later_of_leads hl)⟩
  file := h.file
  archive := by
    rw [hg.options]
    rcases hg.archives with ha | ⟨id, a, hl, ha, hk⟩
    · rw [ha]
      exact h.archive
    · rw [hk]
      by_cases hid : n.archive.id = id
      · subst hid
        rcases h.archive with hs | ⟨-, hr⟩
        · rw [hl] at hs
          cases hs
        · left
          rw [hr] at ha
          rw [List.lookup_cons_self, hr, eq_of_load_reference ha]
      · rw [List.lookup_cons, beq_false_of_ne hid]
        exact h.archive

theorem Taken.ask {d : Directory} (h : n.Taken c) {call : Call} (hc : call ≠ .close) :
    n.Taken (c.ask d call).2 := by
  obtain ⟨t, hs, ht⟩ := h.store
  exact h.grows ht (grows_ask hs hc)

theorem Taken.through (h : n.Taken c) {later : List (Directory × Call)} (hl : ∀ p ∈ later, p.2 ≠ .close) :
    n.Taken (c.through later) := by
  induction later generalizing c with
  | nil => exact h
  | cons p later ih =>
    rw [List.forall_mem_cons] at hl
    exact ih (h.ask hl.1) hl.2

end Snapshot

/-! ## Taking a snapshot -/

def Consistent (c : Cache DiskStore) : Prop := ∀ id a, c.archives.lookup id = some a → a.id = id

variable {d : Directory} {c : Cache DiskStore}

theorem Consistent.through (h : Consistent c) (calls : List (Directory × Call)) :
    Consistent (c.through calls) :=
  Kept.through (fun d s _ _ _ hload => (Archive.load_ok d s hload).1) h calls

theorem lookup_of_read {t : DiskStore} {archive : UInt8} {group : UInt32} {packed : Bytes}
    (h : (Store.read d t archive group).1 = .ok packed) :
    ∃ f, (Store.read d t archive group).2.index.loaded.lookup archive = some f := by
  have hr : Store.read d t archive group = _ := t.read_eq d archive group
  rw [hr] at h ⊢
  rw [IndexFiles.lookup_eq] at h
  obtain ⟨r, hr, -⟩ := bind_eq_ok h
  obtain ⟨f, hf, -⟩ := bind_eq_ok hr
  exact ⟨f, IndexFiles.lookup_loaded_of_load hf⟩

theorem lookup_of_readWith {α : Type} {a : Archive} {t : DiskStore} {group : UInt32} {key : Option Xtea.Key}
    {f : Option ReferenceIndex.Group → Bytes → Except ArchiveError α} {v : α}
    (h : (a.readWith d t group key f).1 = .ok v) :
    ∃ file, (a.readWith d t group key f).2.index.loaded.lookup a.id = some file := by
  rw [Archive.readWith_fst] at h
  obtain ⟨entry, he, h⟩ := bind_eq_ok h
  obtain ⟨packed, hp, -⟩ := bind_eq_ok h
  unfold Archive.readWith
  rw [he]
  exact lookup_of_read (mapError_eq_ok hp)

theorem taken_of_withArchive {α : Type} {id : UInt8}
    {ask : Archive → DiskStore → Except ArchiveError α × DiskStore} {v : α} (hc : Consistent c)
    (h : (c.withArchive d id ask).1 = .ok v)
    (hask : ∀ a t, (ask a t).1 = .ok v → ∃ file, (ask a t).2.index.loaded.lookup a.id = some file) :
    ∃ n : Snapshot, n.archive.id = id ∧ n.Taken (c.withArchive d id ask).2 := by
  unfold withArchive archive at h ⊢
  cases hs : c.store with
  | none =>
    rw [hs] at h
    cases h
  | some s =>
    simp only [hs] at h ⊢
    cases hl : c.archives.lookup id with
    | some a =>
      simp only [hl] at h ⊢
      obtain ⟨file, hf⟩ := hask a s (mapError_eq_ok h)
      have hid := hc id a hl
      subst hid
      exact ⟨⟨_, file, a⟩, rfl, ⟨_, rfl, .refl _⟩, hf, .inl hl⟩
    | none =>
      simp only [hl] at h ⊢
      rcases hload : Archive.load d s id c.options with ⟨e | a, t⟩
      · rw [hload] at h
        cases h
      · rw [hload] at h
        obtain ⟨file, hf⟩ := hask a t (mapError_eq_ok h)
        have hid := (Archive.load_ok d s (congrArg Prod.fst hload)).1
        subst hid
        exact ⟨⟨_, file, a⟩, rfl, ⟨_, rfl, .refl _⟩, hf, .inl List.lookup_cons_self⟩

theorem ok_of_isRead_bytes {r : Except CacheError Bytes} (h : (Answer.bytes r).IsRead) : ∃ v, r = .ok v := by
  cases r with
  | error e => exact h.elim
  | ok v => exact ⟨v, rfl⟩

theorem ok_of_isRead_files {r : Except CacheError (List (UInt32 × Bytes))} (h : (Answer.files r).IsRead) :
    ∃ v, r = .ok v := by
  cases r with
  | error e => exact h.elim
  | ok v => exact ⟨v, rfl⟩

theorem taken_of_read (hc : Consistent c) {call : Call} {archive : UInt8} (ha : call.archive? = some archive)
    (h : (c.ask d call).1.IsRead) : ∃ n : Snapshot, n.archive.id = archive ∧ n.Taken (c.ask d call).2 := by
  cases call with
  | read id group file key =>
    cases ha
    obtain ⟨v, hv⟩ := ok_of_isRead_bytes h
    exact taken_of_withArchive hc hv fun _ _ => lookup_of_readWith
  | readNamed id name file key =>
    cases ha
    obtain ⟨v, hv⟩ := ok_of_isRead_bytes h
    refine taken_of_withArchive hc hv fun a t hr => ?_
    change (a.readNamed d t (nameHash name) file key).1 = _ at hr
    show ∃ file', (a.readNamed d t (nameHash name) file key).2.index.loaded.lookup a.id = some file'
    unfold Archive.readNamed at hr ⊢
    cases hg : a.groupByName (nameHash name) with
    | error e =>
      rw [hg] at hr
      cases hr
    | ok group =>
      rw [hg] at hr
      exact lookup_of_readWith hr
  | readGroup id group key =>
    cases ha
    obtain ⟨v, hv⟩ := ok_of_isRead_files h
    exact taken_of_withArchive hc hv fun _ _ => lookup_of_readWith
  | list id => exact h.elim
  | _ => cases ha

/-! ## Opening -/

theorem loaded_of_openIndex {root : String} {index : IndexFiles}
    (h : DiskStore.openIndex d root .js5 = .ok index) :
    ∃ f, index.loaded.lookup Store.referenceArchive = some f := by
  unfold DiskStore.openIndex at h
  rcases hl : (IndexFiles.ofRoot root).load d Store.referenceArchive with ⟨e | f, index'⟩
  · rw [hl] at h
    cases e <;> cases h
  · rw [hl] at h
    cases h
    have hf := IndexFiles.lookup_loaded_of_load (congrArg Prod.fst hl)
    rw [hl] at hf
    exact ⟨f, hf⟩

theorem open_eq_ok {root : String} {options : Options} (h : openAt d root options = .ok c) :
    ∃ s, c = ofStore s options ∧
      ∃ layout, DiskStore.layoutOf d root = some layout ∧
        DiskStore.openIndex d root layout = .ok s.index := by
  unfold openAt at h
  cases hs : DiskStore.openAt d root options with
  | error e =>
    rw [hs] at h
    cases h
  | ok s =>
    rw [hs] at h
    cases h
    refine ⟨s, rfl, ?_⟩
    unfold DiskStore.openAt at hs
    split at hs
    · cases hs
    · split at hs
      · cases hs
      · obtain ⟨index, hi, hs⟩ := bind_eq_ok hs
        cases hs
        exact ⟨_, ‹_›, hi⟩

theorem consistent_ofStore (s : DiskStore) (options : Options) : Consistent (ofStore s options) := by
  intro id a h
  cases h

theorem taken_of_open {root : String} {options : Options} (h : openAt d root options = .ok c)
    (hl : DiskStore.layoutOf d root = some .js5) :
    ∃ n : Snapshot, n.archive.id = Store.referenceArchive ∧ n.Taken c := by
  obtain ⟨s, rfl, layout, hl', hi⟩ := open_eq_ok h
  rw [hl] at hl'
  cases hl'
  obtain ⟨f, hf⟩ := loaded_of_openIndex hi
  exact ⟨⟨s, f, ⟨Store.referenceArchive, none, options.verifyChecksums⟩⟩, rfl, ⟨s, rfl, .refl s⟩, hf,
    .inr ⟨rfl, rfl⟩⟩

/-! ## Settled archives -/

/-- Short of closing the cache, nothing that is asked of it and nothing that becomes of its files makes a
difference to an answer about the archive. -/
def Settled (c : Cache DiskStore) (archive : UInt8) : Prop :=
  ∀ later later' : List (Directory × Call), (∀ p ∈ later, p.2 ≠ .close) →
    (∀ p ∈ later', p.2 ≠ .close) →
    ∀ (d d' : Directory) (request : Call), request.archive? = some archive →
      ((c.through later).ask d request).1 = ((c.through later').ask d' request).1

theorem settled_of_taken {n : Snapshot} (h : n.Taken c) : Settled c n.archive.id :=
  fun _ _ hl hl' d d' _ hr => (h.through hl).ask_eq (h.through hl') d d' hr

/-- **A read settles an archive.** Once a file or a group of an archive has been read, all answers about the
archive are settled until the cache is closed, though files are written and removed between the calls. In
the newer layout the reference archive is settled from the start. -/
theorem settled_by_read {root : String} {options : Options} (ho : openAt d root options = .ok c) :
    (∀ (before : List (Directory × Call)) (d₁ : Directory) (call : Call) (archive : UInt8),
      call.archive? = some archive → ((c.through before).ask d₁ call).1.IsRead →
        Settled ((c.through before).ask d₁ call).2 archive) ∧
    (DiskStore.layoutOf d root = some .js5 → Settled c Store.referenceArchive) := by
  constructor
  · intro before d₁ call archive ha hr
    obtain ⟨s, rfl, -⟩ := open_eq_ok ho
    obtain ⟨n, rfl, hn⟩ := taken_of_read ((consistent_ofStore s options).through before) ha hr
    exact settled_of_taken hn
  · intro hl
    obtain ⟨n, hid, hn⟩ := taken_of_open ho hl
    exact hid ▸ settled_of_taken hn

def smallCache : Directory where
  root := "/c"
  entries :=
    [(["main_file_cache.dat2"], some (List.replicate 520 0 ++
      ([0, 1, 0, 0, 0, 0, 0, 255] ++ [0, 0, 0, 0, 18] ++
        [5, 0, 0, 1, 0, 0, 0x73, 0x62, 0x59, 0x34, 0, 0, 0, 0, 0, 1, 0, 0] ++ List.replicate 489 0) ++
      [0, 0, 0, 0, 0, 0, 0, 1] ++ [0, 0, 0, 0, 1, 42])),
    (["main_file_cache.idx1"], some [0, 0, 6, 0, 0, 2]),
    (["main_file_cache.idx255"], some [0, 0, 0, 0, 0, 0, 0, 0, 23, 0, 0, 1])]

/-- The file is still read when all files are gone and a read of another archive has failed. -/
theorem settled_by_read_smallCache :
    let gone := Directory.empty "/c"
    ∃ c, openAt smallCache "/c" {} = .ok c ∧ Settled c Store.referenceArchive ∧
      ((c.through [(smallCache, .read 1 0 0 none), (gone, .read 2 0 0 none)]).ask gone (.read 1 0 0 none)).1 =
        .bytes (.ok [42]) := by
  intro gone
  have hread : ((openAt smallCache "/c" {}).map fun c =>
      let c' := (c.read smallCache 1 0 0 none).2
      ((c.read smallCache 1 0 0 none).1, (c'.read smallCache 1 0 0 none).1)) = .ok (.ok [42], .ok [42]) := by
    decide +kernel
  have hl : DiskStore.layoutOf smallCache "/c" = some .js5 := by decide +kernel
  cases ho : openAt smallCache "/c" {} with
  | error e =>
    rw [ho] at hread
    cases hread
  | ok c =>
    rw [ho] at hread
    obtain ⟨hfirst, hsecond⟩ := Prod.mk.inj (Except.ok.inj hread)
    have hr : ((c.through []).ask smallCache (.read 1 0 0 none)).1.IsRead := by
      show (Answer.bytes (c.read smallCache 1 0 0 none).1).IsRead
      rw [hfirst]
      trivial
    have hs := (settled_by_read ho).1 [] smallCache _ 1 rfl hr
    refine ⟨c, rfl, (settled_by_read ho).2 hl, ?_⟩
    calc ((c.through [(smallCache, .read 1 0 0 none), (gone, .read 2 0 0 none)]).ask
            gone (.read 1 0 0 none)).1
        = ((c.through [(smallCache, .read 1 0 0 none)]).ask smallCache (.read 1 0 0 none)).1 :=
          hs [(gone, .read 2 0 0 none)] [] (by decide) (by decide) gone smallCache _ rfl
      _ = .bytes (.ok [42]) := congrArg Answer.bytes hsecond

end Cache

end Js5
