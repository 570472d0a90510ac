import Mathlib.Control.Monad.Basic
import Js5.Envelope.Writer
import Js5.Proofs.Archive
import Js5.Proofs.Repeats
import Js5.ReferenceIndex.Writer
import Js5.Store.Memory

/-!
# Verification

An archive that verifies its groups and one that does not give the same answers, except that the first may
refuse a group that its reference index does not describe. What it does not refuse is as described.
-/

namespace Js5

theorem MemoryStore.hasArchive_of_mem {s : MemoryStore} {archive : UInt8} {group : UInt32} {packed : Bytes}
    (h : ((archive, group), packed) ∈ s.groups) : Store.hasArchive () s archive = true := by
  have hm : group ∈ s.ids archive := by
    unfold ids
    rw [mem_eraseReps, List.mem_mergeSort]
    refine List.mem_map.mpr ⟨((archive, group), packed), List.mem_filter.mpr ⟨h, ?_⟩, rfl⟩
    exact decide_eq_true rfl
  show (!(s.ids archive).isEmpty) = true
  rw [Bool.not_eq_true', List.isEmpty_eq_false_iff_exists_mem]
  exact ⟨group, hm⟩

namespace Archive

/-- The answers of an archive that verifies, and of the same archive when it does not, for one group. -/
structure Screened {α : Type} (a : Archive) (group : UInt32) (key : Option Xtea.Key)
    (packed : Except StoreError Bytes)
    (on off : Except ArchiveError α) : Prop where
  same_or_refused : on = off ∨ ∃ e, on = .error e ∧ e.mismatched? = some (a.id, group)
  never_refused (e : ArchiveError) : off = .error e → e.mismatched? = none
  unindexed : a.index = none → on = off
  described (index : ReferenceIndex) (v : α) : a.index = some index → on = .ok v →
    ∃ g bytes envelope, index.get? group = some g ∧ packed = .ok bytes ∧
      Envelope.decode bytes key = .ok envelope ∧
      index.Describes g bytes envelope.data

variable {α : Type} {a : Archive} {group : UInt32} {key : Option Xtea.Key} {packed : Except StoreError Bytes}

def unverified (a : Archive) : Archive := { a with verify := false }

theorem id_of_get? {index : ReferenceIndex} {id : UInt32} {g : ReferenceIndex.Group}
    (h : index.get? id = some g) : g.id = id := by
  simpa using List.find?_some h

theorem screened_error {e : ArchiveError} (h : e.mismatched? = none) :
    a.Screened group key packed (.error e : Except ArchiveError α) (.error e) where
  same_or_refused := .inl rfl
  never_refused _ h' := by
    cases h'
    exact h
  unindexed _ := rfl
  described _ _ _ h' := by cases h'

theorem Screened.bind {on off : Except ArchiveError α} {β : Type} (h : a.Screened group key packed on off)
    {f : α → Except ArchiveError β} (hf : ∀ x e, f x = .error e → e.mismatched? = none) :
    a.Screened group key packed (on.bind f) (off.bind f) where
  same_or_refused := by
    rcases h.same_or_refused with rfl | ⟨e, rfl, he⟩
    · exact .inl rfl
    · exact .inr ⟨e, rfl, he⟩
  never_refused e he := by
    cases off with
    | error e' =>
      cases he
      exact h.never_refused e rfl
    | ok x => exact hf x e he
  unindexed hi := by rw [h.unindexed hi]
  described index v hi hv := by
    cases on with
    | error e => cases hv
    | ok x => exact h.described index x hi rfl

theorem screened_unpack {entry : Option ReferenceIndex.Group} (hv : a.verify = true)
    (he : a.entry group = .ok entry) (bytes : Bytes) :
    a.Screened group key (.ok bytes) (a.unpack entry key bytes) (a.unverified.unpack entry key bytes) := by
  have hnever (e : ArchiveError) (h : decoded key bytes = .error e) : e.mismatched? = none := by
    obtain ⟨_, rfl⟩ := decoded_error h
    rfl
  cases entry with
  | none =>
    have hi := index_of_entry_none he
    rw [unpack_none, unpack_none]
    exact ⟨.inl rfl, hnever, fun _ => rfl, fun index _ hi' => by rw [hi] at hi'; cases hi'⟩
  | some g =>
    obtain ⟨index, hi, hg⟩ := index_of_entry_some he
    have hid : g.id = group := id_of_get? hg
    have hoff : a.unverified.unpack (some g) key bytes = decoded key bytes := by
      rcases unpack_some (a := a.unverified) hi g key bytes with ⟨hs, -⟩ | ⟨_, _, _, hf⟩
      · exact hs
      · cases hf
    rw [hoff]
    rcases unpack_some hi g key bytes with ⟨hs, hdescribes⟩ | ⟨e, hs, hm, -⟩
    · rw [hs]
      refine ⟨.inl rfl, hnever, fun _ => rfl, fun index' data hi' hd => ?_⟩
      rw [hi] at hi'
      cases hi'
      have hdescribes := hdescribes data hd hv
      obtain ⟨envelope, hdecode, rfl⟩ := decoded_eq_ok hd
      exact ⟨g, bytes, envelope, hg, rfl, hdecode, hdescribes⟩
    · rw [hs]
      rw [hid] at hm
      refine ⟨.inr ⟨e, rfl, hm⟩, hnever, fun hn => ?_, fun _ _ _ hd => by cases hd⟩
      rw [hi] at hn
      cases hn

theorem screened_openGroup (hv : a.verify = true) (group : UInt32) (key : Option Xtea.Key)
    (packed : Except StoreError Bytes) :
    a.Screened group key packed (a.openGroup group key packed) (a.unverified.openGroup group key packed) := by
  cases he : a.entry group with
  | error e =>
    rw [openGroup_of_error he, openGroup_of_error (a := a.unverified) he]
    cases entry_error he
    exact screened_error rfl
  | ok entry =>
    cases packed with
    | error e =>
      rw [openGroup_of_missing he, openGroup_of_missing (a := a.unverified) he]
      exact screened_error rfl
    | ok bytes =>
      rw [openGroup_of_entry he, openGroup_of_entry (a := a.unverified) he]
      exact (screened_unpack hv he bytes).bind fun _ _ h => by cases h

/-! ## Reading -/

theorem fileOf_error {file : UInt16} {entry : Option ReferenceIndex.Group} {data : Bytes} {e : ArchiveError}
    (h : fileOf file entry data = .error e) : e.mismatched? = none := by
  cases entry with
  | none => cases h
  | some g =>
    obtain ⟨_, -, rfl⟩ := mapError_eq_error h
    rfl

theorem filesOf_error {entry : Option ReferenceIndex.Group} {data : Bytes} {e : ArchiveError}
    (h : filesOf entry data = .error e) : e.mismatched? = none := by
  cases entry with
  | none => cases h
  | some g =>
    obtain ⟨_, -, rfl⟩ := mapError_eq_error h
    rfl

section
variable {W S : Type} [Store W S] (w : W) (s : S)

theorem screened_read (hv : a.verify = true) (group : UInt32) (file : UInt16) (key : Option Xtea.Key) :
    a.Screened group key (Store.read w s a.id group).1 (a.read w s group file key).1
      (a.unverified.read w s group file key).1 := by
  rw [read_fst, read_fst]
  exact (screened_openGroup hv group key _).bind fun _ _ => fileOf_error

theorem screened_readGroup (hv : a.verify = true) (group : UInt32) (key : Option Xtea.Key) :
    a.Screened group key (Store.read w s a.id group).1 (a.readGroup w s group key).1
      (a.unverified.readGroup w s group key).1 := by
  rw [readGroup_fst, readGroup_fst]
  exact (screened_openGroup hv group key _).bind fun _ _ => filesOf_error

theorem screened_readNamed (hv : a.verify = true) (hash : UInt32) (file : UInt16) (key : Option Xtea.Key) :
    ((a.readNamed w s hash file key).1 = .error (.unknownName a.id hash) ∧
        (a.unverified.readNamed w s hash file key).1 = .error (.unknownName a.id hash)) ∨
      ∃ group, a.groupByName hash = .ok group ∧
        a.Screened group key (Store.read w s a.id group).1 (a.readNamed w s hash file key).1
          (a.unverified.readNamed w s hash file key).1 := by
  have hoff : a.unverified.groupByName hash = a.groupByName hash := rfl
  unfold readNamed
  rw [hoff]
  cases hn : a.groupByName hash with
  | error e =>
    have he : e = .unknownName a.id hash := by
      unfold groupByName at hn
      split at hn <;> cases hn
      rfl
    subst he
    exact .inl ⟨rfl, rfl⟩
  | ok group => exact .inr ⟨group, rfl, screened_read w s hv group file key⟩

/-! ## Loading -/

theorem load_unverified (id : UInt8) (options : Options) :
    load w s id { options with verifyChecksums := false } =
      ((load w s id { options with verifyChecksums := true }).1.map unverified,
        (load w s id { options with verifyChecksums := true }).2) := by
  unfold load
  split
  · rfl
  · split
    · rfl
    · simp only
      cases openIndex id (Store.read w s Store.referenceArchive id.toUInt32).1 <;> rfl

theorem openIndex_error {id : UInt8} {packed : Except StoreError Bytes} {e : ArchiveError}
    (h : openIndex id packed = .error e) : e.mismatched? = none := by
  unfold openIndex at h
  split at h
  · cases h
    rfl
  · cases h
    rfl
  · rcases bind_eq_error h with hd | ⟨envelope, -, hr⟩
    · obtain ⟨_, -, rfl⟩ := mapError_eq_error hd
      rfl
    · obtain ⟨_, -, rfl⟩ := mapError_eq_error hr
      rfl

theorem load_error {id : UInt8} {options : Options} {e : ArchiveError}
    (h : (load w s id options).1 = .error e) :
    e.mismatched? = none := by
  unfold load at h
  split at h
  · cases h
    rfl
  · split at h
    · cases h
    · exact openIndex_error (map_eq_error h)

theorem load_ok {id : UInt8} {options : Options} {a : Archive} (h : (load w s id options).1 = .ok a) :
    a.id = id ∧ a.verify = options.verifyChecksums ∧
      (a.index = none ↔ id = Store.referenceArchive ∨ Store.layout s = .legacy) := by
  unfold load at h
  split at h
  · cases h
  · split at h
    · rename_i hn
      cases h
      refine ⟨rfl, rfl, fun _ => ?_, fun _ => rfl⟩
      simpa using hn
    · rename_i hn
      obtain ⟨index, -, rfl⟩ := map_eq_ok h
      refine ⟨rfl, rfl, fun hi => absurd hi (Option.some_ne_none index), fun hi => absurd ?_ hn⟩
      simpa using hi

end

/-- **Verification only refuses.** Loaded both ways from one store, an archive gives the same answers to all
three kinds of reading, but for groups that its reference index does not describe. -/
theorem verification_only_refuses {W S : Type} [Store W S] (w : W) (s : S) (id : UInt8) (options : Options) :
    let on := load w s id { options with verifyChecksums := true }
    let off := load w s id { options with verifyChecksums := false }
    on.1.map Archive.index = off.1.map Archive.index ∧ on.2 = off.2 ∧
    (∀ e, on.1 = .error e → e.mismatched? = none) ∧
    ∀ a b, on.1 = .ok a → off.1 = .ok b →
      a.id = id ∧ (a.index = none ↔ id = Store.referenceArchive ∨ Store.layout s = .legacy) ∧
      ∀ (w' : W) (t : S) (key : Option Xtea.Key),
        (∀ group file, a.Screened group key (Store.read w' t id group).1
          (a.read w' t group file key).1 (b.read w' t group file key).1) ∧
        (∀ group, a.Screened group key (Store.read w' t id group).1
          (a.readGroup w' t group key).1 (b.readGroup w' t group key).1) ∧
        ∀ hash file,
          ((a.readNamed w' t hash file key).1 = .error (.unknownName id hash) ∧
            (b.readNamed w' t hash file key).1 = .error (.unknownName id hash)) ∨
          ∃ group, a.groupByName hash = .ok group ∧ a.Screened group key (Store.read w' t id group).1
            (a.readNamed w' t hash file key).1 (b.readNamed w' t hash file key).1 := by
  intro on off
  have hload : off = (on.1.map unverified, on.2) := load_unverified w s id options
  refine ⟨?_, by rw [hload], fun e he => load_error w s he, fun a b ha hb => ?_⟩
  · rw [hload]
    cases on.1 <;> rfl
  · obtain ⟨rfl, hv, hi⟩ := load_ok w s ha
    have hb : b = a.unverified := by
      rw [hload, ha] at hb
      cases hb
      rfl
    subst hb
    refine ⟨rfl, hi, fun w' t key => ⟨?_, ?_, ?_⟩⟩
    · exact fun group file => screened_read w' t hv group file key
    · exact fun group => screened_readGroup w' t hv group key
    · exact fun hash file => screened_readNamed w' t hv hash file key

def sampleData : Bytes := [1, 2, 3, 4, 5, 0, 0, 0, 2, 0, 0, 0, 1, 1]

/-- An index of two groups that have the same data. What it says of the second is not so. -/
def sampleIndex : ReferenceIndex where
  protocol := 6
  version := 0
  hasNames := true
  hasDigests := false
  hasLengths := true
  hasUncompressedChecksums := true
  groups :=
    [⟨3, 12345, 1, 0xc8924fcd, 0x2e52e710, 19, 14, [], [⟨0, -1⟩, ⟨1, -1⟩]⟩,
      ⟨4, 67890, 1, 0xc8924fcd, 0x2e52e710, 19, 15, [], [⟨0, -1⟩, ⟨1, -1⟩]⟩]

def sampleStore : MemoryStore where
  layout := .js5
  groups :=
    let pack (data : Bytes) := Envelope.write .none data data.length none
    [((2, 3), pack sampleData), ((2, 4), pack sampleData), ((255, 2), pack sampleIndex.toBytes)]

theorem load_sampleStore (verify : Bool) :
    (load () sampleStore 2 { verifyChecksums := verify }).1 = .ok ⟨2, some sampleIndex, verify⟩ := by
  have hhas : Store.hasArchive () sampleStore 2 = true :=
    MemoryStore.hasArchive_of_mem (List.mem_cons_self ..)
  have hopen : openIndex 2 (Store.read () sampleStore Store.referenceArchive (2 : UInt8).toUInt32).1 =
      .ok sampleIndex := by decide +kernel
  unfold load
  rw [hhas, if_neg (by decide), if_neg (by decide)]
  simp only [hopen]
  rfl

/-- Of two groups with the same data, the one that its reference index describes is given to read, and the
other is refused for its length. -/
theorem verification_refuses_one :
    let on := load () sampleStore 2 { verifyChecksums := true }
    let off := load () sampleStore 2 { verifyChecksums := false }
    ∃ a b, on.1 = .ok a ∧ off.1 = .ok b ∧
      (a.read () sampleStore 3 1 none).1 = .ok [3, 4, 5] ∧
      (a.readNamed () sampleStore 67890 1 none).1 = .error (.lengthMismatch 2 4 15 14) ∧
      (b.readNamed () sampleStore 67890 1 none).1 = .ok [3, 4, 5] ∧
      a.Screened 4 none (Store.read () sampleStore 2 4).1
        (a.readGroup () sampleStore 4 none).1 (b.readGroup () sampleStore 4 none).1 := by
  intro on off
  have hon : on.1 = .ok ⟨2, some sampleIndex, true⟩ := load_sampleStore true
  have hoff : off.1 = .ok ⟨2, some sampleIndex, false⟩ := load_sampleStore false
  refine ⟨_, _, hon, hoff, by decide +kernel, by decide +kernel, by decide +kernel, ?_⟩
  exact ((verification_only_refuses () sampleStore 2 {}).2.2.2 _ _ hon hoff).2.2 () sampleStore none |>.2.1 4

end Archive

end Js5
