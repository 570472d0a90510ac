import Js5.Proofs.Cache.Memory

/-! # What holds of every archive that is loaded holds of every archive that a cache has kept -/

namespace Js5.Cache

variable {W S : Type} [Store W S] {w : W} {s : S} {c : Cache S}

/-! ## What a call changes -/

/-- All that a call changes in an open cache: the store has been asked, and one archive more may be kept. -/
structure Grows (w : W) (c : Cache S) (s : S) (c' : Cache S) : Prop where
  store : ∃ t, c'.store = some t ∧ Store.Leads w s t
  options : c'.options = c.options
  archives : c'.archives = c.archives ∨ ∃ id a, c.archives.lookup id = none ∧
    (Archive.load w s id c.options).1 = .ok a ∧ c'.archives = (id, a) :: c.archives

theorem grows_withArchive {α : Type} (hc : c.store = some s) (id : UInt8)
    (ask : Archive → S → Except ArchiveError α × S)
    (hask : ∀ a t, Store.Leads w s t → Store.Leads w s (ask a t).2) :
    Grows w c s (c.withArchive w id ask).2 := by
  have hload := Archive.leads_load (w := w) (.refl (s := s)) id c.options
  unfold withArchive archive
  simp only [hc]
  cases hl : c.archives.lookup id with
  | some a => exact ⟨⟨_, rfl, hask a s .refl⟩, rfl, .inl rfl⟩
  | none =>
    rcases hr : Archive.load w s id c.options with ⟨e | a, t⟩
    · rw [hr] at hload
      exact ⟨⟨t, rfl, hload⟩, rfl, .inl rfl⟩
    · rw [hr] at hload
      exact ⟨⟨_, rfl, hask a t hload⟩, rfl, .inr ⟨id, a, hl, congrArg Prod.fst hr, rfl⟩⟩

theorem grows_ask (hc : c.store = some s) {call : Call} (hcall : call ≠ .close) :
    Grows w c s (c.ask w call).2 := by
  cases call with
  | read archive group file key =>
    exact grows_withArchive hc archive _ fun a t ht => Archive.leads_readWith ht a group key _
  | readNamed archive name file key =>
    refine grows_withArchive hc archive _ fun a t ht => ?_
    show Store.Leads w s (a.readNamed w t (nameHash name) file key).2
    unfold Archive.readNamed
    cases a.groupByName (nameHash name) with
    | error e => exact ht
    | ok group => exact Archive.leads_readWith ht a group key _
  | readGroup archive group key =>
    exact grows_withArchive hc archive _ fun a t ht => Archive.leads_readWith ht a group key _
  | list archive =>
    unfold ask list
    simp only [hc]
    exact ⟨⟨_, rfl, .list .refl archive⟩, rfl, .inl rfl⟩
  | close => exact absurd rfl hcall
  | isClosed => exact ⟨⟨s, hc, .refl⟩, rfl, .inl rfl⟩
  | options => exact ⟨⟨s, hc, .refl⟩, rfl, .inl rfl⟩

/-! ## What is kept -/

def Kept (P : UInt8 → Archive → Prop) (c : Cache S) : Prop := ∀ id a, c.archives.lookup id = some a → P id a

variable {P : UInt8 → Archive → Prop}

omit [Store W S] in
theorem kept_ofStore (s : S) (options : Options) : Kept P (ofStore s options) := fun _ _ h => by cases h

theorem archive_fst_of_lookup_none {id : UInt8} (h : c.archives.lookup id = none) :
    (c.archive w s id).1 = (Archive.load w s id c.options).1 := by
  unfold Cache.archive
  rw [h]
  rcases Archive.load w s id c.options with ⟨e | a, t⟩
  · rfl
  · rfl

section
variable (hload : ∀ (w : W) (s : S) (id : UInt8) (options : Options) (a : Archive),
  (Archive.load w s id options).1 = .ok a → P id a)
include hload

theorem Kept.ask (h : Kept P c) (w : W) (call : Call) : Kept P (c.ask w call).2 := by
  cases hs : c.store with
  | none =>
    rw [ask_of_closed hs]
    exact h
  | some s =>
    by_cases hcall : call = .close
    · subst hcall
      have hclose : (c.ask w .close).2 = { c with store := none, archives := [] } := by
        unfold Cache.ask close isClosed
        rw [hs]
        rfl
      rw [hclose]
      intro id a ha
      cases ha
    · intro id a ha
      rcases (grows_ask (w := w) hs hcall).archives with hk | ⟨id', a', -, hl, hk⟩
      · rw [hk] at ha
        exact h id a ha
      · rw [hk] at ha
        by_cases hid : id = id'
        · subst hid
          rw [List.lookup_cons_self] at ha
          cases ha
          exact hload w s id c.options a hl
        · rw [List.lookup_cons, beq_false_of_ne hid] at ha
          exact h id a ha

theorem Kept.through (h : Kept P c) (calls : List (W × Call)) : Kept P (c.through calls) := by
  induction calls generalizing c with
  | nil => exact h
  | cons p calls ih => exact ih (h.ask hload p.1 p.2)

theorem Kept.archive (h : Kept P c) {id : UInt8} {a : Archive} (ha : (c.archive w s id).1 = .ok a) :
    P id a := by
  cases hl : c.archives.lookup id with
  | some a' =>
    unfold Cache.archive at ha
    rw [hl] at ha
    cases ha
    exact h id a hl
  | none =>
    rw [archive_fst_of_lookup_none hl] at ha
    exact hload w s id c.options a ha

end

end Js5.Cache
