import Js5.Proofs.IndexFile.Rows
import Js5.Proofs.Store.Steady
import Js5.Store.IndexFiles.Request

/-!
# Frozen index files

The first request that finds an index file readable freezes it: from then on requests see it as it was.
-/

namespace Js5.IndexFiles

def contents (archive : UInt8) : Directory.Found → Except StoreError IndexFile
  | .absent => .error (.unknownArchive archive)
  | .folder | .refused => .error .io
  | .file b =>
    if IndexFile.recordSize ∣ b.length then .ok (.ofRows b) else .error (.invalidFormat archive b.length)

def place (root : String) (archive : UInt8) (d : Directory) : Directory.Found :=
  d.find ((ofRoot root).path archive)

/-- The index file that a request reads, if it wants its content and there is one to read. -/
def readBy (root : String) (archive : UInt8) (p : Directory × Request) : Option IndexFile :=
  if p.2.archive = archive && p.2.wantsContent then
    (contents archive (place root archive p.1)).toOption
  else none

/-- The index file that the first request to read it has frozen. -/
def frozen (root : String) (archive : UInt8) (requests : List (Directory × Request)) : Option IndexFile :=
  requests.findSome? (readBy root archive)

def Request.reply (there : Bool) (f : Except StoreError IndexFile) : Request → Reply
  | .hasArchive _ => .flag there
  | .load _ => .file f
  | .lookup archive group =>
    .record (f.bind fun f => ((f.get? group).map Except.ok).getD (.error (.unknownGroup archive group)))
  | .list _ => .groups (f.map IndexFile.groups)

theorem path_ofRoot (s : IndexFiles) (archive : UInt8) : (ofRoot s.root).path archive = s.path archive := rfl

theorem readFile_eq (d : Directory) (s : IndexFiles) (archive : UInt8) :
    s.readFile d archive = contents archive (place s.root archive d) := by
  unfold readFile place
  rw [path_ofRoot]
  cases d.find (s.path archive) with
  | file bytes => exact IndexFile.parse_eq archive bytes
  | _ => rfl

/-! ## One request -/

theorem ask_fst (d : Directory) (s : IndexFiles) (r : Request) :
    (s.ask d r).1 = r.reply (s.hasArchive d r.archive) (s.load d r.archive).1 := by
  cases r with
  | hasArchive archive => rfl
  | load archive => exact Prod.map_fst Reply.file id (s.load d archive)
  | lookup archive group => exact congrArg (fun p => Reply.record p.1) (lookup_eq d s archive group)
  | list archive => exact congrArg (fun p => Reply.groups p.1) (list_eq d s archive)

theorem ask_snd (d : Directory) (s : IndexFiles) (r : Request) :
    (s.ask d r).2 = if r.wantsContent then (s.load d r.archive).2 else s := by
  cases r with
  | hasArchive archive => rfl
  | load archive => exact Prod.map_snd Reply.file id (s.load d archive)
  | lookup archive group => exact congrArg Prod.snd (lookup_eq d s archive group)
  | list archive => exact congrArg Prod.snd (list_eq d s archive)

theorem root_ask (d : Directory) (s : IndexFiles) (r : Request) : (s.ask d r).2.root = s.root := by
  rw [ask_snd]
  split
  · rcases load_cases d s r.archive with h | ⟨-, -, f, -, h⟩ <;> rw [h]
  · rfl

theorem lookup_loaded_load (d : Directory) (s : IndexFiles) (archive other : UInt8) :
    (s.load d archive).2.loaded.lookup other =
      (s.loaded.lookup other).or (if archive = other then (s.readFile d archive).toOption else none) := by
  unfold load
  cases hl : s.loaded.lookup archive with
  | some f =>
    by_cases h : archive = other
    · subst h
      rw [hl]
      rfl
    · rw [if_neg h, Option.or_none]
  | none =>
    cases s.readFile d archive with
    | error e =>
      show s.loaded.lookup other = (s.loaded.lookup other).or (if archive = other then none else none)
      rw [ite_self, Option.or_none]
    | ok f =>
      by_cases h : archive = other
      · subst h
        rw [if_pos rfl, hl]
        exact List.lookup_cons_self
      · rw [if_neg h, Option.or_none, List.lookup_cons, beq_false_of_ne (Ne.symm h)]

theorem lookup_loaded_of_load {d : Directory} {s : IndexFiles} {archive : UInt8} {f : IndexFile}
    (h : (s.load d archive).1 = .ok f) : (s.load d archive).2.loaded.lookup archive = some f := by
  rw [load_fst] at h
  rw [lookup_loaded_load, if_pos rfl]
  cases hl : s.loaded.lookup archive with
  | some g =>
    rw [hl] at h
    cases h
    rfl
  | none =>
    rw [hl, Option.map_none, Option.getD_none] at h
    rw [h]
    rfl

theorem lookup_loaded_ask (d : Directory) (s : IndexFiles) (r : Request) (archive : UInt8) :
    (s.ask d r).2.loaded.lookup archive = (s.loaded.lookup archive).or (readBy s.root archive (d, r)) := by
  rw [ask_snd]
  unfold readBy
  cases hw : r.wantsContent with
  | false => simp
  | true =>
    rw [if_pos rfl, lookup_loaded_load, readFile_eq]
    by_cases h : r.archive = archive
    · subst h
      simp
    · simp [h]

/-! ## Runs -/

theorem root_through (s : IndexFiles) (requests : List (Directory × Request)) :
    (s.through requests).root = s.root := by
  induction requests generalizing s with
  | nil => rfl
  | cons p requests ih => exact (ih (s.ask p.1 p.2).2).trans (root_ask p.1 s p.2)

theorem lookup_loaded_through (s : IndexFiles) (requests : List (Directory × Request)) (archive : UInt8) :
    (s.through requests).loaded.lookup archive =
      (s.loaded.lookup archive).or (frozen s.root archive requests) := by
  induction requests generalizing s with
  | nil => exact Option.or_none.symm
  | cons p requests ih =>
    -- what the first request has read comes before anything that later ones read
    have h := ih (s.ask p.1 p.2).2
    rw [root_ask, lookup_loaded_ask, Option.or_assoc] at h
    refine h.trans (congrArg _ ?_)
    unfold frozen
    rw [List.findSome?_cons]
    cases readBy s.root archive (p.1, p.2) <;> rfl

theorem lookup_loaded (root : String) (requests : List (Directory × Request)) (archive : UInt8) :
    ((ofRoot root).through requests).loaded.lookup archive = frozen root archive requests :=
  lookup_loaded_through (ofRoot root) requests archive

theorem frozen_filter (root : String) (archive : UInt8) (requests : List (Directory × Request)) :
    frozen root archive (requests.filter fun p => (readBy root archive p).isSome) =
      frozen root archive requests := by
  unfold frozen
  induction requests with
  | nil => rfl
  | cons p requests ih =>
    rw [List.filter_cons, List.findSome?_cons]
    cases h : readBy root archive p with
    | none => exact ih
    | some f => simp [h]

theorem ask_through_eq (root : String) (requests : List (Directory × Request)) (d : Directory)
    (r : Request) :
    (((ofRoot root).through requests).ask d r).1 =
      match frozen root r.archive requests with
      | some f => r.reply true (.ok f)
      | none => r.reply (d.isFile ((ofRoot root).path r.archive))
        (contents r.archive (place root r.archive d)) := by
  have hroot : ((ofRoot root).through requests).root = root := root_through (ofRoot root) requests
  have hpath : ((ofRoot root).through requests).path r.archive = (ofRoot root).path r.archive := by
    rw [← path_ofRoot, hroot]
  rw [ask_fst, load_fst, readFile_eq, hroot]
  unfold hasArchive
  rw [hpath, lookup_loaded]
  cases frozen root r.archive requests with
  | some f => rfl
  | none => rw [Option.isSome_none, Bool.false_or, Option.map_none, Option.getD_none]

/-- **Frozen by the first success.** As long as no request has read the index file of an archive, requests
about the archive are answered from what is in its place by then, and after that from what it was when it
was first read. Other requests could as well not have been made. -/
theorem ask_through (root : String) (requests : List (Directory × Request)) (d : Directory)
    (r : Request) :
    (((ofRoot root).through requests).ask d r).1 =
      (match frozen root r.archive requests with
      | some f => r.reply true (.ok f)
      | none => r.reply (d.isFile ((ofRoot root).path r.archive))
        (contents r.archive (place root r.archive d))) ∧
    (((ofRoot root).through requests).ask d r).1 =
      (((ofRoot root).through (requests.filter fun p => (readBy root r.archive p).isSome)).ask d r).1 := by
  refine ⟨ask_through_eq root requests d r, ?_⟩
  rw [ask_through_eq, ask_through_eq, frozen_filter]

end Js5.IndexFiles
