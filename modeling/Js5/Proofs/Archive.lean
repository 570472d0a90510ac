import Js5.Archive
import Js5.Proofs.Outcome

/-!
# Groups of an archive

Opening a group is decoding it, except that a check may refuse it; reading makes something of its data.
-/

namespace Js5

def ArchiveError.mismatched? : ArchiveError → Option (UInt8 × UInt32)
  | .checksumMismatch archive group .. | .lengthMismatch archive group .. => some (archive, group)
  | _ => none

/-- What the reference index says of a group is true of its bytes. -/
structure ReferenceIndex.Describes (index : ReferenceIndex) (g : ReferenceIndex.Group)
    (packed data : Bytes) : Prop where
  checksum : crc32 (packed.take (Envelope.packedLength packed)) = g.checksum
  length : index.hasLengths = true → data.length = g.uncompressedLength.toNat
  uncompressedChecksum : index.hasUncompressedChecksums = true → crc32 data = g.uncompressedChecksum

namespace Archive

variable {W S α : Type} [Store W S] {w : W} {s : S}

def fileOf (file : UInt16) (entry : Option ReferenceIndex.Group) (data : Bytes) : Except ArchiveError Bytes :=
  match entry with
  | some g => (Stripes.file data g.fileIds file.toUInt32).mapError .stripes
  | none => .ok data

def filesOf (entry : Option ReferenceIndex.Group) (data : Bytes) :
    Except ArchiveError (List (UInt32 × Bytes)) :=
  match entry with
  | some g => (Stripes.split data g.fileIds).mapError .stripes
  | none => .ok [(0, data)]

def readFrom (a : Archive) (group : UInt32) (key : Option Xtea.Key)
    (f : Option ReferenceIndex.Group → Bytes → Except ArchiveError α) (packed : Except StoreError Bytes) :
    Except ArchiveError α := do
  let entry ← a.entry group
  f entry (← a.unpack entry key (← packed.mapError .store))

theorem readWith_fst (a : Archive) (group : UInt32) (key : Option Xtea.Key)
    (f : Option ReferenceIndex.Group → Bytes → Except ArchiveError α) :
    (a.readWith w s group key f).1 = a.readFrom group key f (Store.read w s a.id group).1 := by
  unfold readWith readFrom
  cases a.entry group with
  | error e => rfl
  | ok entry => rfl

/-! ## Entries -/

/-- The files that a group is said to have. Without a reference index it is a single file. -/
def fileIds (a : Archive) (group : UInt32) : List UInt32 :=
  match a.index with
  | none => [0]
  | some index => ((index.get? group).map ReferenceIndex.Group.fileIds).getD []

variable {a : Archive} {group : UInt32} {key : Option Xtea.Key} {packed : Except StoreError Bytes}

theorem index_of_entry_none (h : a.entry group = .ok none) : a.index = none := by
  unfold entry at h
  split at h
  · assumption
  · split at h <;> cases h

theorem index_of_entry_some {g : ReferenceIndex.Group} (h : a.entry group = .ok (some g)) :
    ∃ index, a.index = some index ∧ index.get? group = some g := by
  unfold entry at h
  split at h
  · cases h
  · split at h
    · cases h
      exact ⟨_, ‹_›, ‹_›⟩
    · cases h

theorem fileIds_of_entry_none (h : a.entry group = .ok none) : a.fileIds group = [0] := by
  unfold fileIds
  rw [index_of_entry_none h]

theorem fileIds_of_entry_some {g : ReferenceIndex.Group} (h : a.entry group = .ok (some g)) :
    a.fileIds group = g.fileIds := by
  obtain ⟨index, hi, hg⟩ := index_of_entry_some h
  unfold fileIds
  rw [hi]
  simp [hg]

theorem entry_error {e : ArchiveError} (h : a.entry group = .error e) : e = .unknownGroup a.id group := by
  unfold entry at h
  split at h
  · cases h
  · split at h <;> cases h
    rfl

/-! ## Checks -/

theorem checkChecksum_cases (a : Archive) (group : UInt32) (field : Checksum) (expected actual : UInt32) :
    (a.checkChecksum group field expected actual = .ok () ∧ actual = expected) ∨
      ∃ e, a.checkChecksum group field expected actual = .error e ∧ e.mismatched? = some (a.id, group) := by
  unfold checkChecksum
  split
  · exact .inl ⟨rfl, Eq.symm ‹_›⟩
  · exact .inr ⟨_, rfl, rfl⟩

theorem verifyPacked_cases (a : Archive) (g : ReferenceIndex.Group) (bytes : Bytes) :
    (a.verifyPacked g bytes = .ok () ∧
        (a.verify = true → crc32 (bytes.take (Envelope.packedLength bytes)) = g.checksum)) ∨
      ∃ e, a.verifyPacked g bytes = .error e ∧ e.mismatched? = some (a.id, g.id) ∧ a.verify = true := by
  unfold verifyPacked
  cases hv : a.verify with
  | false => exact .inl ⟨rfl, fun h => by cases h⟩
  | true =>
    rw [if_pos rfl]
    rcases a.checkChecksum_cases g.id .packed g.checksum _ with ⟨h, hc⟩ | ⟨e, h, he⟩
    · exact .inl ⟨h, fun _ => hc⟩
    · exact .inr ⟨e, h, he, rfl⟩

theorem verifyData_cases (a : Archive) (index : ReferenceIndex) (g : ReferenceIndex.Group) (data : Bytes) :
    (a.verifyData index g data = .ok () ∧ (a.verify = true →
        (index.hasLengths = true → data.length = g.uncompressedLength.toNat) ∧
        (index.hasUncompressedChecksums = true → crc32 data = g.uncompressedChecksum))) ∨
      ∃ e, a.verifyData index g data = .error e ∧ e.mismatched? = some (a.id, g.id) ∧ a.verify = true := by
  unfold verifyData
  cases hv : a.verify with
  | false => exact .inl ⟨rfl, fun h => by cases h⟩
  | true =>
    rw [if_neg (by decide)]
    split
    · exact .inr ⟨_, rfl, rfl, rfl⟩
    · rename_i hl
      have hl : index.hasLengths = true → data.length = g.uncompressedLength.toNat := by
        intro hh
        rw [hh, Bool.true_and, decide_eq_true_eq, ne_eq, Decidable.not_not] at hl
        exact hl.symm
      split
      · rcases a.checkChecksum_cases g.id .uncompressed g.uncompressedChecksum (crc32 data)
          with ⟨h, hc⟩ | ⟨e, h, he⟩
        · exact .inl ⟨h, fun _ => ⟨hl, fun _ => hc⟩⟩
        · exact .inr ⟨e, h, he, rfl⟩
      · exact .inl ⟨rfl, fun _ => ⟨hl, fun hu => absurd hu ‹_›⟩⟩

def decoded (key : Option Xtea.Key) (bytes : Bytes) : Except ArchiveError Bytes :=
  ((Envelope.decode bytes key).mapError .envelope).map Envelope.data

theorem decoded_error {key : Option Xtea.Key} {bytes : Bytes} {e : ArchiveError}
    (h : decoded key bytes = .error e) :
    ∃ reason, e = .envelope reason := by
  obtain ⟨reason, -, he⟩ := mapError_eq_error (map_eq_error h)
  exact ⟨reason, he⟩

theorem decoded_eq_ok {key : Option Xtea.Key} {bytes data : Bytes} (h : decoded key bytes = .ok data) :
    ∃ envelope, Envelope.decode bytes key = .ok envelope ∧ data = envelope.data := by
  obtain ⟨envelope, hd, hv⟩ := map_eq_ok h
  exact ⟨envelope, mapError_eq_ok hd, hv⟩

theorem unpack_none (a : Archive) (key : Option Xtea.Key) (bytes : Bytes) :
    a.unpack none key bytes = decoded key bytes := by
  unfold unpack decoded
  cases a.index <;> cases Envelope.decode bytes key <;> rfl

theorem unpack_some {index : ReferenceIndex} (hi : a.index = some index) (g : ReferenceIndex.Group)
    (key : Option Xtea.Key) (bytes : Bytes) :
    (a.unpack (some g) key bytes = decoded key bytes ∧
        ∀ data, decoded key bytes = .ok data → a.verify = true → index.Describes g bytes data) ∨
      ∃ e, a.unpack (some g) key bytes = .error e ∧ e.mismatched? = some (a.id, g.id) ∧ a.verify = true := by
  have hu : a.unpack (some g) key bytes = do
      a.verifyPacked g bytes
      let data ← decoded key bytes
      a.verifyData index g data
      return data := by
    unfold unpack decoded
    simp only [hi]
    cases a.verifyPacked g bytes with
    | error e => rfl
    | ok _ => cases Envelope.decode bytes key <;> rfl
  rw [hu]
  rcases a.verifyPacked_cases g bytes with ⟨hp, hchecksum⟩ | ⟨e, hp, he⟩
  · rw [hp]
    cases hd : decoded key bytes with
    | error e => exact .inl ⟨rfl, fun _ h => by cases h⟩
    | ok data =>
      rcases a.verifyData_cases index g data with ⟨hv, hdata⟩ | ⟨e, hv, he⟩
      · refine .inl ⟨?_, fun data' h hverify => ?_⟩
        · show (a.verifyData index g data >>= fun _ => pure data) = .ok data
          rw [hv]
          rfl
        · cases h
          exact ⟨hchecksum hverify, (hdata hverify).1, (hdata hverify).2⟩
      · refine .inr ⟨e, ?_, he⟩
        show (a.verifyData index g data >>= fun _ => pure data) = .error e
        rw [hv]
        rfl
  · rw [hp]
    exact .inr ⟨e, rfl, he⟩

theorem unpack_ne_stripes {entry : Option ReferenceIndex.Group} (he : a.entry group = .ok entry)
    {bytes : Bytes} {e : ArchiveError} (h : a.unpack entry key bytes = .error e)
    (reason : Stripes.Error) : e ≠ .stripes reason := by
  rintro rfl
  have hd : decoded key bytes ≠ .error (.stripes reason) := fun hd => by
    obtain ⟨_, hr⟩ := decoded_error hd
    cases hr
  cases entry with
  | none => exact hd (a.unpack_none key bytes ▸ h)
  | some g =>
    obtain ⟨index, hi, -⟩ := index_of_entry_some he
    rcases unpack_some hi g key bytes with ⟨hs, -⟩ | ⟨e, hs, hm, -⟩
    · exact hd (hs ▸ h)
    · rw [hs] at h
      cases h
      cases hm

/-! ## Opening -/

def openGroup (a : Archive) (group : UInt32) (key : Option Xtea.Key) (packed : Except StoreError Bytes) :
    Except ArchiveError (Option ReferenceIndex.Group × Bytes) := do
  let entry ← a.entry group
  return (entry, ← a.unpack entry key (← packed.mapError .store))

theorem readFrom_eq (a : Archive) (group : UInt32) (key : Option Xtea.Key) (packed : Except StoreError Bytes)
    (f : Option ReferenceIndex.Group → Bytes → Except ArchiveError α) :
    a.readFrom group key f packed = (a.openGroup group key packed).bind fun p => f p.1 p.2 := by
  unfold openGroup readFrom
  cases a.entry group with
  | error e => rfl
  | ok entry =>
    cases packed with
    | error e => rfl
    | ok bytes =>
      show (a.unpack entry key bytes).bind (f entry) =
        ((a.unpack entry key bytes).bind fun data => .ok (entry, data)).bind fun p => f p.1 p.2
      cases a.unpack entry key bytes <;> rfl

theorem openGroup_of_error {e : ArchiveError} (h : a.entry group = .error e) :
    a.openGroup group key packed = .error e := by
  unfold openGroup
  rw [h]
  rfl

theorem openGroup_of_missing {entry : Option ReferenceIndex.Group} (h : a.entry group = .ok entry)
    (e : StoreError) :
    a.openGroup group key (.error e) = .error (.store e) := by
  unfold openGroup
  rw [h]
  rfl

theorem openGroup_of_entry {entry : Option ReferenceIndex.Group} (h : a.entry group = .ok entry)
    (bytes : Bytes) :
    a.openGroup group key (.ok bytes) = (a.unpack entry key bytes).bind fun data => .ok (entry, data) := by
  unfold openGroup
  rw [h]
  rfl

theorem entry_of_openGroup {p : Option ReferenceIndex.Group × Bytes}
    (h : a.openGroup group key packed = .ok p) :
    a.entry group = .ok p.1 := by
  obtain ⟨entry, he, h⟩ := bind_eq_ok h
  obtain ⟨bytes, -, h⟩ := bind_eq_ok h
  obtain ⟨data, -, h⟩ := bind_eq_ok h
  cases h
  exact he

theorem openGroup_ne_stripes {e : ArchiveError} (h : a.openGroup group key packed = .error e)
    (reason : Stripes.Error) :
    e ≠ .stripes reason := by
  rcases bind_eq_error h with he | ⟨entry, he, h⟩
  · cases entry_error he
    exact fun h => by cases h
  · rcases bind_eq_error h with hp | ⟨bytes, -, h⟩
    · obtain ⟨_, -, rfl⟩ := mapError_eq_error hp
      exact fun h => by cases h
    · rcases bind_eq_error h with hu | ⟨data, -, h⟩
      · exact unpack_ne_stripes he hu reason
      · cases h

theorem read_fst (a : Archive) (group : UInt32) (file : UInt16) (key : Option Xtea.Key) :
    (a.read w s group file key).1 =
      (a.openGroup group key (Store.read w s a.id group).1).bind fun p => fileOf file p.1 p.2 :=
  (readWith_fst a group key (fileOf file)).trans (readFrom_eq ..)

theorem readGroup_fst (a : Archive) (group : UInt32) (key : Option Xtea.Key) :
    (a.readGroup w s group key).1 =
      (a.openGroup group key (Store.read w s a.id group).1).bind fun p => filesOf p.1 p.2 :=
  (readWith_fst a group key filesOf).trans (readFrom_eq ..)

end Archive

end Js5
