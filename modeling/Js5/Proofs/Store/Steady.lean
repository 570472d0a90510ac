import Js5.Store.Disk
import Js5.Store.Memory

/-! # Steady stores: no request that was made of one can be told from a later answer -/

namespace Js5

namespace Store

variable {W S : Type} [Store W S] {w : W} {s t u : S}

inductive Leads (w : W) (s : S) : S → Prop where
  | refl : Leads w s s
  | list {t : S} (h : Leads w s t) (archive : UInt8) : Leads w s (Store.list w t archive).2
  | read {t : S} (h : Leads w s t) (archive : UInt8) (group : UInt32) :
    Leads w s (Store.read w t archive group).2

structure Agree (w : W) (s t : S) : Prop where
  layout : Store.layout t = Store.layout s
  hasArchive (archive : UInt8) : Store.hasArchive w t archive = Store.hasArchive w s archive
  list (archive : UInt8) : (Store.list w t archive).1 = (Store.list w s archive).1
  read (archive : UInt8) (group : UInt32) :
    (Store.read w t archive group).1 = (Store.read w s archive group).1

def Steady (w : W) (s : S) : Prop := ∀ t, Leads w s t → Agree w s t

theorem Agree.refl (w : W) (s : S) : Agree w s s := ⟨rfl, fun _ => rfl, fun _ => rfl, fun _ _ => rfl⟩

theorem Agree.trans (h : Agree w s t) (h' : Agree w t u) : Agree w s u where
  layout := h'.layout.trans h.layout
  hasArchive archive := (h'.hasArchive archive).trans (h.hasArchive archive)
  list archive := (h'.list archive).trans (h.list archive)
  read archive group := (h'.read archive group).trans (h.read archive group)

theorem steady_of_step (hl : ∀ (t : S) archive, Agree w t (Store.list w t archive).2)
    (hr : ∀ (t : S) archive group, Agree w t (Store.read w t archive group).2) : Steady w s := by
  intro t ht
  induction ht with
  | refl => exact .refl w s
  | list _ archive ih => exact ih.trans (hl _ archive)
  | read _ archive group ih => exact ih.trans (hr _ archive group)

end Store

theorem MemoryStore.steady (s : MemoryStore) : Store.Steady () s :=
  Store.steady_of_step (fun t _ => .refl () t) fun t _ _ => .refl () t

/-! ## Index files -/

namespace IndexFiles

variable (d : Directory) (s : IndexFiles) (archive other : UInt8)

theorem path_of_root (loaded : List (UInt8 × IndexFile)) : path ⟨s.root, loaded⟩ archive = s.path archive :=
  rfl

theorem readFile_of_root (loaded : List (UInt8 × IndexFile)) :
    readFile d ⟨s.root, loaded⟩ archive = s.readFile d archive := by
  unfold readFile
  rw [path_of_root]

theorem load_fst :
    (s.load d archive).1 = ((s.loaded.lookup archive).map .ok).getD (s.readFile d archive) := by
  unfold load
  cases s.loaded.lookup archive with
  | some f => rfl
  | none =>
    cases s.readFile d archive with
    | error e => rfl
    | ok f => rfl

theorem load_cases : (s.load d archive).2 = s ∨
    s.loaded.lookup archive = none ∧ d.isFile (s.path archive) = true ∧
      ∃ f, s.readFile d archive = .ok f ∧ s.load d archive = (.ok f, ⟨s.root, (archive, f) :: s.loaded⟩) := by
  unfold load
  cases hl : s.loaded.lookup archive with
  | some f => exact .inl rfl
  | none =>
    cases hf : s.readFile d archive with
    | error e => exact .inl rfl
    | ok f =>
      refine .inr ⟨rfl, ?_, f, rfl, rfl⟩
      unfold readFile at hf
      unfold Directory.isFile
      cases h : d.find (s.path archive) with
      | file bytes => rfl
      | _ => rw [h] at hf; cases hf

theorem load_load : ((s.load d archive).2.load d other).1 = (s.load d other).1 := by
  obtain h | ⟨hl, -, f, hf, h⟩ := load_cases d s archive
  · rw [h]
  · rw [h]
    by_cases ho : other = archive
    · subst ho
      simp only [load_fst, List.lookup_cons_self, hl, hf, Option.map_some, Option.map_none, Option.getD_some,
        Option.getD_none]
    · have hb : (other == archive) = false := beq_false_of_ne ho
      simp only [load_fst, List.lookup_cons, hb, readFile_of_root]

theorem hasArchive_load : (s.load d archive).2.hasArchive d other = s.hasArchive d other := by
  obtain h | ⟨hl, hi, f, -, h⟩ := load_cases d s archive
  · rw [h]
  · rw [h]
    by_cases ho : other = archive
    · subst ho
      simp only [hasArchive, List.lookup_cons_self, Option.isSome_some, Bool.true_or, hl, hi, Bool.or_true]
    · have hb : (other == archive) = false := beq_false_of_ne ho
      simp only [hasArchive, List.lookup_cons, hb, path_of_root]

theorem lookup_eq (group : UInt32) : s.lookup d archive group =
    ((s.load d archive).1.bind fun f =>
      ((f.get? group).map Except.ok).getD (.error (.unknownGroup archive group)),
      (s.load d archive).2) := by
  unfold lookup
  rcases s.load d archive with ⟨f | f, t⟩
  · rfl
  · simp only [Except.bind]
    cases f.get? group <;> rfl

theorem list_eq : s.list d archive = ((s.load d archive).1.map IndexFile.groups, (s.load d archive).2) := rfl

end IndexFiles

/-! ## Stores on disk -/

namespace DiskStore

variable (d : Directory) (s : DiskStore) (archive : UInt8)

theorem read_eq (group : UInt32) : s.read d archive group =
    ((s.index.lookup d archive group).1.bind (s.readChain archive group),
      { s with index := (s.index.load d archive).2 }) := by
  simp only [read, lookup, IndexFiles.lookup_eq]
  cases hf : (s.index.load d archive).1 with
  | error e => rfl
  | ok f =>
    simp only [Except.bind]
    cases f.get? group <;> rfl

theorem agree_load : Store.Agree d s { s with index := (s.index.load d archive).2 } where
  layout := rfl
  hasArchive other := s.index.hasArchive_load d archive other
  list other := by
    simp only [Store.list, list, IndexFiles.list_eq, IndexFiles.load_load]
  read other group := by
    simp only [Store.read, read_eq, IndexFiles.lookup_eq, IndexFiles.load_load]
    rfl

theorem steady : Store.Steady d s := by
  refine Store.steady_of_step (fun t archive => t.agree_load d archive) fun t archive group => ?_
  have h : (Store.read d t archive group).2 = { t with index := (t.index.load d archive).2 } :=
    congrArg Prod.snd (t.read_eq d archive group)
  rw [h]
  exact t.agree_load d archive

end DiskStore

end Js5
