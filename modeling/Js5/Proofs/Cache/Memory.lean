import Mathlib.Control.Monad.Basic
import Js5.Cache.Call
import Js5.Proofs.Archive
import Js5.Proofs.Store.Steady

/-!
# The memory of a cache

A cache keeps the archives that it has loaded. Over a steady store nobody can tell: what is kept is what
loading it again would give, so every answer is the one that a cache without a memory gives.
-/

namespace Js5

namespace Archive

variable {W S α : Type} [Store W S] {w : W} {s t : S}

theorem leads_readWith (h : Store.Leads w s t) (a : Archive) (group : UInt32) (key : Option Xtea.Key)
    (f : Option ReferenceIndex.Group → Bytes → Except ArchiveError α) :
    Store.Leads w s (a.readWith w t group key f).2 := by
  unfold readWith
  cases a.entry group with
  | error e => exact h
  | ok entry => exact h.read a.id group

theorem readWith_steady (hs : Store.Steady w s) (h : Store.Leads w s t) (a : Archive) (group : UInt32)
    (key : Option Xtea.Key) (f : Option ReferenceIndex.Group → Bytes → Except ArchiveError α) :
    (a.readWith w t group key f).1 = a.readFrom group key f (Store.read w s a.id group).1 ∧
      Store.Leads w s (a.readWith w t group key f).2 := by
  refine ⟨?_, leads_readWith h a group key f⟩
  rw [readWith_fst, (hs t h).read]

theorem readNamed_steady (hs : Store.Steady w s) (h : Store.Leads w s t) (a : Archive) (hash : UInt32)
    (file : UInt16) (key : Option Xtea.Key) :
    (a.readNamed w t hash file key).1 = (a.groupByName hash).bind (fun group =>
        a.readFrom group key (fileOf file) (Store.read w s a.id group).1) ∧
      Store.Leads w s (a.readNamed w t hash file key).2 := by
  unfold readNamed
  cases a.groupByName hash with
  | error e => exact ⟨rfl, h⟩
  | ok group => exact readWith_steady hs h a group key (fileOf file)

end Archive

structure Catalogue where
  layout : Layout
  hasArchive : Bool
  index : Except StoreError Bytes

namespace Catalogue

def ofStore {W S : Type} [Store W S] (w : W) (s : S) (archive : UInt8) : Catalogue :=
  ⟨Store.layout s, Store.hasArchive w s archive, (Store.read w s Store.referenceArchive archive.toUInt32).1⟩

variable (c : Catalogue) (packed : Except StoreError Bytes) (options : Options) (id : UInt8)

def load : Except ArchiveError Archive :=
  if !c.hasArchive then .error (.store (.unknownArchive id))
  else if id = Store.referenceArchive || c.layout = .legacy then .ok ⟨id, none, options.verifyChecksums⟩
  else (Archive.openIndex id c.index).map fun index => ⟨id, some index, options.verifyChecksums⟩

def read (group : UInt32) (file : UInt16) (key : Option Xtea.Key) : Except CacheError Bytes :=
  ((c.load options id).bind fun a => a.readFrom group key (Archive.fileOf file) packed).mapError .archive

def readGroup (group : UInt32) (key : Option Xtea.Key) : Except CacheError (List (UInt32 × Bytes)) :=
  ((c.load options id).bind fun a => a.readFrom group key Archive.filesOf packed).mapError .archive

def resolve (name : String) : Except CacheError UInt32 :=
  ((c.load options id).bind fun a => a.groupByName (nameHash name)).mapError .archive

variable {c options id}

theorem resolve_bind (name : String) (file : UInt16) (key : Option Xtea.Key)
    (packed : UInt32 → Except StoreError Bytes) :
    ((c.resolve options id name).bind fun group => c.read (packed group) options id group file key) =
      ((c.load options id).bind fun a => (a.groupByName (nameHash name)).bind fun group =>
        a.readFrom group key (Archive.fileOf file) (packed group)).mapError .archive := by
  unfold resolve read
  cases c.load options id with
  | error e => rfl
  | ok a =>
    show ((a.groupByName _).mapError _).bind _ = ((a.groupByName _).bind _).mapError _
    cases a.groupByName (nameHash name) with
    | error e => rfl
    | ok group => rfl

theorem id_of_load {a : Archive} (h : c.load options id = .ok a) : a.id = id := by
  unfold load at h
  split at h
  · cases h
  · split at h
    · cases h; rfl
    · cases hi : Archive.openIndex id c.index with
      | error e => rw [hi] at h; cases h
      | ok index => rw [hi] at h; cases h; rfl

end Catalogue

section

variable {W S : Type} [Store W S] {w : W} {s t : S}

theorem Archive.load_fst (id : UInt8) (options : Options) :
    (Archive.load w s id options).1 = (Catalogue.ofStore w s id).load options id := by
  unfold Archive.load Catalogue.load Catalogue.ofStore
  split
  · rfl
  · split <;> rfl

theorem Archive.leads_load (h : Store.Leads w s t) (id : UInt8) (options : Options) :
    Store.Leads w s (Archive.load w t id options).2 := by
  unfold Archive.load
  split
  · exact h
  · split
    · exact h
    · exact h.read Store.referenceArchive id.toUInt32

theorem Store.Agree.catalogue (h : Store.Agree w s t) (id : UInt8) :
    Catalogue.ofStore w t id = Catalogue.ofStore w s id := by
  unfold Catalogue.ofStore
  rw [h.layout, h.hasArchive, h.read]

end

namespace Cache

variable {W S : Type} [Store W S]

def answer (w : W) (s : S) (options : Options) : Call → Answer
  | .read archive group file key =>
    .bytes ((Catalogue.ofStore w s archive).read (Store.read w s archive group).1
      options archive group file key)
  | .readNamed archive name file key => .bytes do
    let group ← (Catalogue.ofStore w s archive).resolve options archive name
    (Catalogue.ofStore w s archive).read (Store.read w s archive group).1 options archive group file key
  | .readGroup archive group key =>
    .files ((Catalogue.ofStore w s archive).readGroup (Store.read w s archive group).1
      options archive group key)
  | .list archive => .groups ((Store.list w s archive).1.mapError .store)
  | .close => .done (.ok ())
  | .isClosed => .flag false
  | .options => .options options

/-- The calls for which the store is asked for no group of the archive but this one. -/
def Concerns (w : W) (s : S) (options : Options) (archive : UInt8) (group : UInt32) : Call → Prop
  | .read a g .. | .readGroup a g _ => a = archive ∧ g = group
  | .readNamed a name .. => a = archive ∧
    ∀ g, (Catalogue.ofStore w s archive).resolve options archive name = .ok g → g = group
  | _ => False

def refusal (options : Options) : Call → Answer
  | .read .. | .readNamed .. => .bytes (.error .closed)
  | .readGroup .. => .files (.error .closed)
  | .list _ => .groups (.error .closed)
  | .close => .done (.error .closed)
  | .isClosed => .flag true
  | .options => .options options

/-- The archives that a cache has kept are the ones it would load from the store as it was at first. -/
structure Remembers (w : W) (s : S) (options : Options) (c : Cache S) : Prop where
  options_eq : c.options = options
  store : ∃ t, c.store = some t ∧ Store.Leads w s t
  loaded (id : UInt8) (a : Archive) :
    c.archives.lookup id = some a → (Catalogue.ofStore w s id).load options id = .ok a

variable {w : W} {s t : S} {options : Options} {c : Cache S}

theorem remembers_ofStore (w : W) (s : S) (options : Options) :
    Remembers w s options (ofStore s options) where
  options_eq := rfl
  store := ⟨s, rfl, .refl⟩
  loaded _ _ h := by cases h

theorem Remembers.setStore (h : Remembers w s options c) (ht : Store.Leads w s t) :
    Remembers w s options { c with store := some t } where
  options_eq := h.options_eq
  store := ⟨t, rfl, ht⟩
  loaded := h.loaded

theorem Remembers.archive (h : Remembers w s options c) (hs : Store.Steady w s) (ht : Store.Leads w s t)
    (id : UInt8) :
    (c.archive w t id).1 = (Catalogue.ofStore w s id).load options id ∧
      Remembers w s options (c.archive w t id).2.1 ∧ Store.Leads w s (c.archive w t id).2.2 := by
  unfold Cache.archive
  cases hl : c.archives.lookup id with
  | some a => exact ⟨(h.loaded id a hl).symm, h, ht⟩
  | none =>
    have hload : (Archive.load w t id c.options).1 = (Catalogue.ofStore w s id).load options id := by
      rw [Archive.load_fst, (hs t ht).catalogue, h.options_eq]
    have hleads := Archive.leads_load ht id c.options
    rcases hr : Archive.load w t id c.options with ⟨a | a, u⟩
    · rw [hr] at hload hleads
      exact ⟨hload, h, hleads⟩
    · rw [hr] at hload hleads
      refine ⟨hload, ⟨h.options_eq, h.store, ?_⟩, hleads⟩
      intro id' a' ha
      by_cases hid : id' = id
      · subst hid
        rw [List.lookup_cons_self] at ha
        cases ha
        exact hload.symm
      · have hb : (id' == id) = false := beq_false_of_ne hid
        rw [List.lookup_cons, hb] at ha
        exact h.loaded id' a' ha

theorem Remembers.withArchive {α : Type} (h : Remembers w s options c) (hs : Store.Steady w s) (id : UInt8)
    (ask : Archive → S → Except ArchiveError α × S) (plain : Archive → Except ArchiveError α)
    (hask : ∀ a t, a.id = id → Store.Leads w s t → (ask a t).1 = plain a ∧ Store.Leads w s (ask a t).2) :
    (c.withArchive w id ask).1 = (((Catalogue.ofStore w s id).load options id).bind plain).mapError .archive ∧
      Remembers w s options (c.withArchive w id ask).2 := by
  obtain ⟨t, hc, ht⟩ := h.store
  obtain ⟨hload, hr, hleads⟩ := h.archive hs ht id
  unfold Cache.withArchive
  simp only [hc]
  rcases ha : c.archive w t id with ⟨e | a, c', u⟩
  · rw [ha] at hload hr hleads
    rw [← hload]
    exact ⟨rfl, hr.setStore hleads⟩
  · rw [ha] at hload hr hleads
    obtain ⟨hp, hu⟩ := hask a u (Catalogue.id_of_load hload.symm) hleads
    rw [← hload]
    exact ⟨congrArg (Except.mapError CacheError.archive) hp, hr.setStore hu⟩

/-! ## One call -/

theorem answer_read (w : W) (s : S) (options : Options) (archive : UInt8) (group : UInt32) (file : UInt16)
    (key : Option Xtea.Key) : answer w s options (.read archive group file key) =
      .bytes ((((Catalogue.ofStore w s archive).load options archive).bind fun a =>
        a.readFrom group key (Archive.fileOf file) (Store.read w s archive group).1).mapError .archive) := rfl

theorem answer_readGroup (w : W) (s : S) (options : Options) (archive : UInt8) (group : UInt32)
    (key : Option Xtea.Key) : answer w s options (.readGroup archive group key) =
      .files ((((Catalogue.ofStore w s archive).load options archive).bind fun a =>
        a.readFrom group key Archive.filesOf (Store.read w s archive group).1).mapError .archive) := rfl

theorem answer_readNamed (w : W) (s : S) (options : Options) (archive : UInt8) (name : String)
    (file : UInt16) (key : Option Xtea.Key) :
    answer w s options (.readNamed archive name file key) =
      .bytes (((Catalogue.ofStore w s archive).resolve options archive name).bind fun group =>
        (Catalogue.ofStore w s archive).read (Store.read w s archive group).1
          options archive group file key) := rfl

theorem answer_list (w : W) (s : S) (options : Options) (archive : UInt8) :
    answer w s options (.list archive) = .groups ((Store.list w s archive).1.mapError .store) := rfl

theorem Remembers.ask (h : Remembers w s options c) (hs : Store.Steady w s) {call : Call}
    (hc : call ≠ .close) :
    (c.ask w call).1 = answer w s options call ∧ Remembers w s options (c.ask w call).2 := by
  cases call with
  | read archive group file key =>
    have := h.withArchive hs archive (fun a s => a.read w s group file key)
      (fun a => a.readFrom group key (Archive.fileOf file) (Store.read w s archive group).1) ?_
    · exact ⟨congrArg Answer.bytes this.1, this.2⟩
    · rintro a t rfl ht
      exact Archive.readWith_steady hs ht a group key (Archive.fileOf file)
  | readNamed archive name file key =>
    have := h.withArchive hs archive (fun a s => a.readNamed w s (nameHash name) file key)
      (fun a => (a.groupByName (nameHash name)).bind fun group =>
        a.readFrom group key (Archive.fileOf file) (Store.read w s archive group).1) ?_
    · refine ⟨(congrArg Answer.bytes this.1).trans ?_, this.2⟩
      rw [answer_readNamed, Catalogue.resolve_bind]
    · rintro a t rfl ht
      exact Archive.readNamed_steady hs ht a (nameHash name) file key
  | readGroup archive group key =>
    have := h.withArchive hs archive (fun a s => a.readGroup w s group key)
      (fun a => a.readFrom group key Archive.filesOf (Store.read w s archive group).1) ?_
    · exact ⟨congrArg Answer.files this.1, this.2⟩
    · rintro a t rfl ht
      exact Archive.readWith_steady hs ht a group key Archive.filesOf
  | list archive =>
    obtain ⟨t, hc, ht⟩ := h.store
    unfold Cache.ask Cache.list
    simp only [hc]
    refine ⟨?_, h.setStore (ht.list archive)⟩
    rw [answer_list, ← (hs t ht).list]
    rfl
  | close => exact absurd rfl hc
  | isClosed =>
    obtain ⟨t, hc, -⟩ := h.store
    refine ⟨?_, h⟩
    unfold Cache.ask isClosed answer
    rw [hc]
    rfl
  | options => exact ⟨congrArg Answer.options h.options_eq, h⟩

theorem Remembers.ask_close (h : Remembers w s options c) :
    (c.ask w .close).1 = .done (.ok ()) ∧ (c.ask w .close).2.store = none ∧
      (c.ask w .close).2.options = options := by
  obtain ⟨t, hc, -⟩ := h.store
  unfold Cache.ask close isClosed
  rw [hc]
  exact ⟨rfl, rfl, h.options_eq⟩

theorem ask_of_closed (hc : c.store = none) (call : Call) : c.ask w call = (refusal c.options call, c) := by
  cases call with
  | close =>
    unfold Cache.ask close isClosed
    rw [hc]
    rfl
  | isClosed =>
    unfold Cache.ask isClosed
    rw [hc]
    rfl
  | options => rfl
  | list archive =>
    unfold Cache.ask Cache.list
    rw [hc]
    rfl
  | _ =>
    simp only [Cache.ask, Cache.read, Cache.readNamed, Cache.readGroup, Cache.withArchive, hc]
    rfl

/-! ## Runs -/

theorem Remembers.after (h : Remembers w s options c) (hs : Store.Steady w s) {before : List Call}
    (hb : .close ∉ before) : Remembers w s options (c.after w before) := by
  induction before generalizing c with
  | nil => exact h
  | cons call before ih =>
    -- after the first call the cache remembers still, and the rest are asked of that cache
    rw [List.mem_cons, not_or] at hb
    exact ih (h.ask hs (Ne.symm hb.1)).2 hb.2

theorem after_of_closed (hc : c.store = none) (before : List Call) : c.after w before = c := by
  induction before with
  | nil => rfl
  | cons call before ih =>
    show ((c.ask w call).2).after w before = c
    rw [ask_of_closed hc]
    exact ih

theorem Remembers.after_close (h : Remembers w s options c) (hs : Store.Steady w s) {before : List Call}
    (hb : .close ∈ before) : (c.after w before).store = none ∧ (c.after w before).options = options := by
  induction before generalizing c with
  | nil => cases hb
  | cons call before ih =>
    show ((c.ask w call).2.after w before).store = none ∧ ((c.ask w call).2.after w before).options = options
    -- up to the first close the cache remembers, and behind it no call changes anything
    by_cases hc : call = .close
    · subst hc
      obtain ⟨-, hn, ho⟩ := h.ask_close
      rw [after_of_closed hn]
      exact ⟨hn, ho⟩
    · have hb' : .close ∈ before := (List.mem_cons.mp hb).resolve_left (Ne.symm hc)
      exact ih (h.ask hs hc).2 hb'

theorem not_isRefusal_answer (w : W) (s : S) (options : Options) (call : Call) :
    ¬ (answer w s options call).IsRefusal := by
  have key {ε α : Type} {f : ε → CacheError} (hf : ∀ e, f e ≠ .closed) (x : Except ε α) :
      x.mapError f ≠ .error .closed := by
    cases x with
    | error e => exact fun h => hf e (Except.error.inj h)
    | ok a => exact fun h => by cases h
  have ha (e : ArchiveError) : CacheError.archive e ≠ .closed := by intro h; cases h
  cases call with
  | read | readGroup => exact key ha _
  | readNamed archive name file keys =>
    rw [answer_readNamed]
    intro h
    cases hr : (Catalogue.ofStore w s archive).resolve options archive name with
    | error e =>
      rw [hr] at h
      cases h
      exact key ha _ hr
    | ok group =>
      rw [hr] at h
      exact key ha _ h
  | list => exact key (fun e h => by cases h) _
  | close => exact fun h => by cases h
  | _ => exact fun h => h

theorem answer_eq_of_concerns {W' S' : Type} [Store W' S'] {w' : W'} {s' : S'} {archive : UInt8}
    {group : UInt32} (hc : Catalogue.ofStore w' s' archive = Catalogue.ofStore w s archive)
    (hp : (Store.read w' s' archive group).1 = (Store.read w s archive group).1) {call : Call}
    (h : Concerns w s options archive group call) :
    answer w' s' options call = answer w s options call := by
  cases call with
  | read | readGroup =>
    obtain ⟨rfl, rfl⟩ := h
    simp only [answer, hc, hp]
  | readNamed a name file key =>
    obtain ⟨rfl, hg⟩ := h
    rw [answer_readNamed, answer_readNamed, hc]
    cases hr : (Catalogue.ofStore w s a).resolve options a name with
    | error e => rfl
    | ok g =>
      obtain rfl := hg g hr
      exact congrArg (fun p => Answer.bytes ((Catalogue.ofStore w s a).read p options a g file key)) hp
  | _ => exact h.elim

/-- Until a cache over a steady store is closed, each answer is that of a fresh cache, whatever was asked
before and whatever else the store holds. Once closed the cache gives nothing any more. -/
theorem ask_after (hs : Store.Steady w s) (options : Options) (before : List Call) :
    (.close ∉ before →
      (∀ call,
        (((ofStore s options).after w before).ask w call).1 = ((ofStore s options).ask w call).1 ∧
        (((ofStore s options).after w before).ask w call).1 = answer w s options call ∧
        ¬ (answer w s options call).IsRefusal) ∧
      (∀ {W' S' : Type} [Store W' S'] (w' : W') (s' : S') (before' : List Call) (archive : UInt8)
        (group : UInt32),
        Store.Steady w' s' → .close ∉ before' →
          Catalogue.ofStore w' s' archive = Catalogue.ofStore w s archive →
          (Store.read w' s' archive group).1 = (Store.read w s archive group).1 →
            ∀ call, Concerns w s options archive group call →
              (((ofStore s' options).after w' before').ask w' call).1 =
                (((ofStore s options).after w before).ask w call).1)) ∧
    (.close ∈ before → ∀ call,
      (((ofStore s options).after w before).ask w call).1 = refusal options call) := by
  -- a cache answers `answer` after any calls but closing ones, whatever its store
  have plain {W S : Type} [Store W S] {w : W} {s : S} (hs : Store.Steady w s) {before : List Call}
      (hb : .close ∉ before) (call : Call) :
      (((ofStore s options).after w before).ask w call).1 = answer w s options call := by
    have hr := (remembers_ofStore w s options).after hs hb
    by_cases hc : call = .close
    · subst hc
      exact hr.ask_close.1
    · exact (hr.ask hs hc).1
  refine ⟨fun hb => ⟨fun call => ?_, ?_⟩, fun hb call => ?_⟩
  · have hfresh := plain hs (List.not_mem_nil (a := Call.close)) call
    exact ⟨(plain hs hb call).trans hfresh.symm, plain hs hb call, not_isRefusal_answer w s options call⟩
  · intro W' S' _ w' s' before' archive group hs' hb' hc hp call h
    rw [plain hs' hb', plain hs hb]
    exact answer_eq_of_concerns hc hp h
  · obtain ⟨hn, ho⟩ := (remembers_ofStore w s options).after_close hs hb
    rw [ask_of_closed hn, ho]

/-- A group that a failed call came before, and the same group after the cache was closed; and an empty
disk. -/
theorem ask_after_close :
    let s : MemoryStore := ⟨.legacy, [((3, 7), [0, 0, 0, 0, 1, 42])]⟩
    let d : Directory := .empty "/cache"
    let disk : DiskStore := ⟨"/cache", .legacy, #[], none, .ofRoot "/cache"⟩
    let before : List Call := [.read 3 8 0 none, .list 4]
    (((ofStore s {}).after () before).ask () (.read 3 7 0 none)).1 = .bytes (.ok [42]) ∧
      (((ofStore s {}).after () (.close :: before)).ask () (.read 3 7 0 none)).1 = .bytes (.error .closed) ∧
      (((ofStore disk {}).after d before).ask d .isClosed).1 = .flag false := by
  intro s d disk before
  have hb : .close ∉ before := by decide
  have hc : .close ∈ Call.close :: before := List.mem_cons_self
  refine ⟨?_, (ask_after s.steady {} (.close :: before)).2 hc _,
    (((ask_after (disk.steady d) {} before).1 hb).1 _).2.1⟩
  refine (((ask_after s.steady {} before).1 hb).1 _).2.1.trans ?_
  exact congrArg Answer.bytes (by decide +kernel)

end Cache

end Js5
