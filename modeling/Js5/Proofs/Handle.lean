import Js5.Handle.Request
import Js5.Proofs.Cache.Lengths

/-!
# Handles stand for caches

A request with good pointers is the call that it makes of the cache, and any other is nothing to the cache.
-/

namespace Js5

/-- The bytes up to the first zero are the text. -/
def IsText (b : Bytes) (text : String) : Prop := text.toUTF8 = (b.takeWhile (· ≠ 0)).toByteArray

theorem fromUTF8?_eq_some_iff {b : ByteArray} {text : String} :
    String.fromUTF8? b = some text ↔ text.toUTF8 = b := by
  unfold String.fromUTF8?
  constructor
  · intro h
    split at h
    · cases h
      rfl
    · cases h
  · rintro rfl
    exact dif_pos text.isValidUTF8

theorem pointedText_eq_some_iff {pointer : Option Bytes} {text : String} :
    pointedText pointer = some text ↔ ∃ b, pointer = some b ∧ IsText b text := by
  unfold pointedText IsText
  cases pointer with
  | none =>
    constructor
    · intro h
      cases h
    · rintro ⟨b, hb, -⟩
      cases hb
  | some b =>
    constructor
    · exact fun h => ⟨b, rfl, fromUTF8?_eq_some_iff.mp h⟩
    · rintro ⟨b', hb, ht⟩
      cases hb
      exact fromUTF8?_eq_some_iff.mpr ht

namespace Handle

variable {d : Directory}

theorem openAt_eq (d : Directory) (path : Option Bytes) :
    openAt d path = (pointedText path).bind fun path => (Cache.openAt d path {}).toOption := by
  unfold openAt
  cases pointedText path <;> rfl

theorem isSome_openAt_iff (d : Directory) (path : Option Bytes) :
    (openAt d path).isSome = true ↔
      ∃ b text c, path = some b ∧ IsText b text ∧ Cache.openAt d text {} = .ok c := by
  rw [openAt_eq]
  constructor
  · intro h
    cases hp : pointedText path with
    | none =>
      rw [hp] at h
      cases h
    | some text =>
      rw [hp] at h
      obtain ⟨b, rfl, ht⟩ := pointedText_eq_some_iff.mp hp
      change (Cache.openAt d text {}).toOption.isSome = true at h
      cases hc : Cache.openAt d text {} with
      | error e =>
        rw [hc] at h
        cases h
      | ok c => exact ⟨b, text, c, rfl, ht, hc⟩
  · rintro ⟨b, text, c, hb, ht, hc⟩
    rw [pointedText_eq_some_iff.mpr ⟨b, hb, ht⟩]
    show (Cache.openAt d text {}).toOption.isSome = true
    rw [hc]
    rfl

/-! ## Reads -/

theorem reply_snd (length : UInt32) (r : Except CacheError Bytes × Cache DiskStore) :
    (reply length r).2 = some r.2 := by
  obtain ⟨⟨e | data⟩, c⟩ := r <;> rfl

theorem exists_length {r : Request} {call : Call} (hr : r.call? = some call) :
    ∃ length, r.length? = some (some length) := by
  cases r with
  | read archive group file key length | readNamed archive name file key length =>
    cases length with
    | none => cases hr
    | some length => exact ⟨length, rfl⟩
  | _ => cases hr

theorem ask_of_call {r : Request} {call : Call} {length : UInt32} (hr : r.call? = some call)
    (hl : r.length? = some (some length)) (c : Cache DiskStore) :
    ∃ answer, c.ask d call = answer.map Answer.bytes id ∧
      ask d (some c) r = (reply length answer).map .reply id := by
  cases r with
  | read archive group file key length' =>
    cases hl
    cases hr
    exact ⟨_, rfl, rfl⟩
  | readNamed archive name file key length' =>
    cases hl
    obtain ⟨text, hn, rfl⟩ := Option.map_eq_some_iff.mp hr
    refine ⟨c.readNamed d archive text file key, rfl, ?_⟩
    show (readNamed d (some c) archive name file key (some length)).map Answer.reply id = _
    unfold readNamed
    rw [hn]
  | _ => cases hr

theorem ask_of_null {r : Request} {length : Option UInt32} (hl : r.length? = some length) {h : Handle}
    (hr : h = none ∨ r.call? = none) : ask d h r = (.reply ⟨none, length⟩, h) := by
  cases r with
  | read archive group file key length' =>
    cases hl
    rcases hr with rfl | hr
    · rfl
    · cases length with
      | none => cases h <;> rfl
      | some length => cases hr
  | readNamed archive name file key length' =>
    cases hl
    rcases hr with rfl | hr
    · rfl
    · show (h.readNamed d archive name file key length).map Answer.reply id = _
      unfold readNamed
      cases length with
      | none => cases h <;> rfl
      | some length =>
        rw [Option.map_eq_none_iff.mp hr]
        cases h <;> rfl
  | _ => cases hl

/-! ## Sessions -/

theorem Session.cache_concat (s : Session) (p : Directory × Call) :
    Session.cache { s with calls := s.calls ++ [p] } = (s.cache.ask p.1 p.2).2 := by
  unfold Session.cache Cache.through
  rw [List.foldl_append]
  rfl

theorem Session.after_of_read {r : Request} {length : Option UInt32} (hl : r.length? = some length)
    (s : Option Session) :
    Session.after s (d, r) =
      s.map fun s => { s with calls := s.calls ++ (r.call?.map fun call => (d, call)).toList } := by
  cases r with
  | read | readNamed => rfl
  | _ => cases hl

theorem ask_snd_of_read {r : Request} {length : Option UInt32} (hl : r.length? = some length)
    (s : Option Session) :
    (ask d (s.map Session.cache) r).2 = (Session.after s (d, r)).map Session.cache := by
  rw [Session.after_of_read hl]
  cases s with
  | none => exact congrArg Prod.snd (ask_of_null hl (.inl rfl))
  | some s =>
    cases hr : r.call? with
    | none =>
      rw [ask_of_null hl (.inr hr)]
      exact congrArg (fun calls => some (Session.cache ⟨s.opened, calls⟩)) (List.append_nil s.calls).symm
    | some call =>
      obtain ⟨n, hn⟩ := exists_length hr
      obtain ⟨answer, hc, ha⟩ := ask_of_call (d := d) hr hn s.cache
      show (ask d (some s.cache) r).2 = some (Session.cache { s with calls := s.calls ++ [(d, call)] })
      rw [ha, s.cache_concat (d, call), hc]
      exact reply_snd n answer

theorem ask_snd (d : Directory) (s : Option Session) (r : Request) :
    (ask d (s.map Session.cache) r).2 = (Session.after s (d, r)).map Session.cache := by
  cases r with
  | openAt path =>
    show openAt d path = Option.map _ ((pointedText path).bind _)
    rw [openAt_eq]
    cases pointedText path with
    | none => rfl
    | some path =>
      show (Cache.openAt d path {}).toOption = Option.map _ ((Cache.openAt d path {}).toOption.map _)
      cases Cache.openAt d path {} <;> rfl
  | read | readNamed => exact ask_snd_of_read rfl s
  | close => rfl

theorem through_eq (requests : List (Directory × Request)) (s : Option Session) :
    through (s.map Session.cache) requests = (requests.foldl Session.after s).map Session.cache := by
  induction requests generalizing s with
  | nil => rfl
  | cons p requests ih =>
    show through (ask p.1 (s.map Session.cache) p.2).2 requests = _
    rw [ask_snd, ih]
    rfl

/-! ## What is handed over -/

/-- The reply hands over the file if there is one, with its exact length, and otherwise leaves the place for
the length as it was. -/
structure Reply.HandsOver (r : Reply) (length : Option UInt32) (file : Bytes → Prop) : Prop where
  buffer : ∀ data, r.buffer = some data ↔ file data
  short : ∀ data, file data → data.length < 2 ^ 31
  length_eq : ∀ data, file data → ∃ n, r.length = some n ∧ n.toNat = data.length
  untouched : r.buffer = none → r.length = length

theorem Reply.HandsOver.congr {r : Reply} {length : Option UInt32} {file file' : Bytes → Prop}
    (h : r.HandsOver length file) (hf : ∀ data, file data ↔ file' data) : r.HandsOver length file' :=
  funext (fun data => propext (hf data)) ▸ h

theorem handsOver_null (length : Option UInt32) {file : Bytes → Prop} (h : ∀ data, ¬ file data) :
    Reply.HandsOver ⟨none, length⟩ length file where
  buffer data := iff_of_false (fun hd => by cases hd) (h data)
  short data hd := absurd hd (h data)
  length_eq data hd := absurd hd (h data)
  untouched _ := rfl

theorem handsOver_data {data : Bytes} (hlt : data.length < 2 ^ 31) (length : Option UInt32) :
    Reply.HandsOver ⟨some data, some (UInt32.ofNat data.length)⟩ length (· = data) where
  buffer data' := by
    rw [Option.some.injEq]
    exact eq_comm
  short data' hd := by rwa [hd]
  length_eq data' hd := by
    rw [hd]
    exact ⟨_, rfl, UInt32.toNat_ofNat_of_lt' (Nat.lt_trans hlt (by decide))⟩
  untouched hd := by cases hd

theorem handsOver_reply (length : UInt32) {r : Except CacheError Bytes × Cache DiskStore}
    (hlt : ∀ data, r.1 = .ok data → data.length < 2 ^ 31) :
    (reply length r).1.HandsOver (some length) fun data => r.1 = .ok data := by
  obtain ⟨r, c⟩ := r
  cases r with
  | error e => exact handsOver_null _ fun data hd => by cases hd
  | ok data =>
    refine (handsOver_data (hlt data rfl) _).congr fun data' => ?_
    rw [Except.ok.injEq]
    exact eq_comm

theorem handsOver_ask (h : Handle) {r : Request} {length : Option UInt32} (hl : r.length? = some length) :
    ∃ reply, (ask d h r).1 = .reply reply ∧ reply.HandsOver length fun data => ∃ c call,
      h = some c ∧ r.call? = some call ∧ (c.ask d call).1 = .bytes (.ok data) := by
  by_cases hr : h = none ∨ r.call? = none
  · rw [ask_of_null hl hr]
    refine ⟨_, rfl, handsOver_null length ?_⟩
    rintro data ⟨c, call, rfl, hcall, -⟩
    rcases hr with hr | hr
    · cases hr
    · rw [hr] at hcall
      cases hcall
  · obtain ⟨c, rfl⟩ := Option.ne_none_iff_exists'.mp (not_or.mp hr).1
    obtain ⟨call, hcall⟩ := Option.ne_none_iff_exists'.mp (not_or.mp hr).2
    obtain ⟨n, hn⟩ := exists_length hcall
    obtain ⟨answer, hc, ha⟩ := ask_of_call (d := d) hcall hn c
    rw [hl] at hn
    cases hn
    have hanswer : (c.ask d call).1 = .bytes answer.1 := congrArg Prod.fst hc
    refine ⟨_, congrArg Prod.fst ha, (handsOver_reply n fun data hd => ?_).congr fun data => ?_⟩
    · exact Cache.length_ask_lt call (hanswer.trans (congrArg Answer.bytes hd))
    · constructor
      · exact fun hd => ⟨c, call, rfl, hcall, hanswer.trans (congrArg Answer.bytes hd)⟩
      · rintro ⟨c', call', hc', hcall', hd⟩
        cases hc'
        rw [hcall] at hcall'
        cases hcall'
        exact Answer.bytes.inj (hanswer.symm.trans hd)

/-! ## Whole runs -/

/-- **Handles stand for caches.** After any requests a handle is the cache of the session that is open, and
null if there is none. A read hands over what the same call of the cache gives, exactly if there is a
session, a place for the length and, for a named group, a text for its name. -/
theorem stands_for_cache (requests : List (Directory × Request)) (d : Directory) :
    let h : Handle := through none requests
    h = (session requests).map Session.cache ∧
    (∀ path, (h.ask d (.openAt path)).1 = .opened true ↔
      ∃ b text c, path = some b ∧ IsText b text ∧ Cache.openAt d text {} = .ok c) ∧
    (∀ archive group file key length, ∃ r : Reply,
      (h.ask d (.read archive group file key length)).1 = .reply r ∧
      r.HandsOver length fun data => ∃ s, session requests = some s ∧ length.isSome ∧
        (s.cache.ask d (.read archive group file key)).1 = .bytes (.ok data)) ∧
    (∀ archive name file key length, ∃ r : Reply,
      (h.ask d (.readNamed archive name file key length)).1 = .reply r ∧
      r.HandsOver length fun data => ∃ s b text, session requests = some s ∧ length.isSome ∧
        name = some b ∧ IsText b text ∧
        (s.cache.ask d (.readNamed archive text file key)).1 = .bytes (.ok data)) := by
  intro h
  have hh : h = (session requests).map Session.cache := through_eq requests none
  refine ⟨hh, ?_, ?_, ?_⟩
  · intro path
    rw [← isSome_openAt_iff]
    exact ⟨Answer.opened.inj, congrArg Answer.opened⟩
  · intro archive group file key length
    obtain ⟨r, hr, hover⟩ := handsOver_ask (d := d) h (r := .read archive group file key length) rfl
    refine ⟨r, hr, hover.congr fun data => ?_⟩
    rw [hh]
    constructor
    · rintro ⟨c, call, hc, hcall, hd⟩
      obtain ⟨s, hs, rfl⟩ := Option.map_eq_some_iff.mp hc
      cases length with
      | none => cases hcall
      | some n =>
        cases hcall
        exact ⟨s, hs, rfl, hd⟩
    · rintro ⟨s, hs, hl, hd⟩
      obtain ⟨n, rfl⟩ := Option.isSome_iff_exists.mp hl
      exact ⟨s.cache, _, Option.map_eq_some_iff.mpr ⟨s, hs, rfl⟩, rfl, hd⟩
  · intro archive name file key length
    obtain ⟨r, hr, hover⟩ := handsOver_ask (d := d) h (r := .readNamed archive name file key length) rfl
    refine ⟨r, hr, hover.congr fun data => ?_⟩
    rw [hh]
    constructor
    · rintro ⟨c, call, hc, hcall, hd⟩
      obtain ⟨s, hs, rfl⟩ := Option.map_eq_some_iff.mp hc
      cases length with
      | none => cases hcall
      | some n =>
        obtain ⟨text, hn, rfl⟩ := Option.map_eq_some_iff.mp hcall
        obtain ⟨b, hb, ht⟩ := pointedText_eq_some_iff.mp hn
        exact ⟨s, b, text, hs, rfl, hb, ht, hd⟩
    · rintro ⟨s, b, text, hs, hl, hb, ht, hd⟩
      obtain ⟨n, rfl⟩ := Option.isSome_iff_exists.mp hl
      have hn := pointedText_eq_some_iff.mpr ⟨b, hb, ht⟩
      exact ⟨s.cache, _, Option.map_eq_some_iff.mpr ⟨s, hs, rfl⟩,
        Option.map_eq_some_iff.mpr ⟨text, hn, rfl⟩, hd⟩

end Handle

end Js5
