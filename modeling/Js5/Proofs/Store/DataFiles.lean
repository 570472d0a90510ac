import Js5.Proofs.Outcome
import Js5.Proofs.Store.Steady
import Mathlib.Algebra.Ring.Nat

/-! # Which data file an archive is read from is settled when a store is opened -/

namespace Js5.DiskStore

variable {d : Directory} {root : String} {options : Options} {s : DiskStore}

/-- All that is read of an archive, by a record or by the index file, is read along chains in `bytes`. -/
structure ServedFrom (s : DiskStore) (archive : UInt8) (bytes : Bytes) : Prop where
  readChain (group : UInt32) (r : IndexRecord) :
    s.readChain archive group r = SectorChain.Source.read ⟨bytes.toArray, s.layout, archive, group⟩ r
  read (d : Directory) (group : UInt32) : (s.read d archive group).1 =
    (s.lookup d archive group).1.bind (SectorChain.Source.read ⟨bytes.toArray, s.layout, archive, group⟩)

theorem servedFrom_of_dataFor {archive : UInt8} {bytes : Bytes} (h : s.dataFor archive = bytes.toArray) :
    s.ServedFrom archive bytes where
  readChain group r := by
    unfold DiskStore.readChain
    rw [h]
  read d group := by
    rw [read_eq, ← h]
    rfl

theorem dataFile_of_find {path : String} {bytes : Bytes} (h : d.find path = .file bytes) :
    dataFile d path = if bytes = [] then none else some bytes.toArray := by
  unfold dataFile
  rw [h]
  cases bytes <;> rfl

theorem find_of_isFile {path : String} (h : d.isFile path = true) : ∃ bytes, d.find path = .file bytes := by
  unfold Directory.isFile at h
  split at h
  · exact ⟨_, ‹_›⟩
  · cases h

theorem dataFile_of_not_isFile {path : String} (h : d.isFile path = false) : dataFile d path = none := by
  unfold Directory.isFile at h
  unfold dataFile
  split at h
  · cases h
  · rename_i hf
    split
    · rfl
    · exact absurd ‹_› (hf _)
    · rfl

theorem isFile_of_layoutOf {layout : Layout} (h : layoutOf d root = some layout) :
    d.isFile (joinPath root (dataName layout)) = true := by
  unfold layoutOf at h
  split at h
  · cases h
    assumption
  · split at h
    · cases h
      assumption
    · cases h

theorem dataFiles_of_openAt (h : openAt d root options = .ok s) : ∃ main,
    d.find (joinPath root (dataName s.layout)) = .file main ∧ s.data = main.toArray ∧
      s.music = if options.musicData then dataFile d (joinPath root musicName) else none := by
  unfold openAt at h
  split at h
  · cases h
  split at h
  · cases h
  rename_i layout hl
  obtain ⟨index, -, hs⟩ := bind_eq_ok h
  cases hs
  obtain ⟨main, hm⟩ := find_of_isFile (isFile_of_layoutOf hl)
  refine ⟨main, hm, ?_, rfl⟩
  show (dataFile d (joinPath root (dataName layout))).getD #[] = main.toArray
  rw [dataFile_of_find hm]
  cases main <;> rfl

theorem dataFor_of_ne {archive : UInt8} (h : archive ≠ Store.musicArchive) : s.dataFor archive = s.data := by
  unfold dataFor
  cases s.music with
  | none => rfl
  | some music => exact if_neg h

theorem dataFor_music : s.dataFor Store.musicArchive = s.music.getD s.data := by
  unfold dataFor
  cases s.music with
  | none => rfl
  | some music => exact if_pos rfl

/-- **The music archive has its own file, if that holds anything.** A store that opens serves it from the
music file if that is wanted, there and not empty; otherwise, like all other archives, from the main data
file. -/
theorem servedFrom_of_openAt (h : openAt d root options = .ok s) : ∃ main,
    d.find (joinPath root (dataName s.layout)) = .file main ∧
    (∀ archive, archive ≠ Store.musicArchive → s.ServedFrom archive main) ∧
    (∀ music, options.musicData = true → d.find (joinPath root musicName) = .file music → music ≠ [] →
      s.ServedFrom Store.musicArchive music) ∧
    (options.musicData = false ∨ d.isFile (joinPath root musicName) = false ∨
        d.find (joinPath root musicName) = .file [] →
      s.ServedFrom Store.musicArchive main) := by
  obtain ⟨main, hmain, hdata, hmusic⟩ := dataFiles_of_openAt h
  refine ⟨main, hmain, ?_, ?_, ?_⟩
  · intro archive ha
    exact servedFrom_of_dataFor ((dataFor_of_ne ha).trans hdata)
  · intro music ho hf hne
    rw [if_pos ho, dataFile_of_find hf, if_neg hne] at hmusic
    apply servedFrom_of_dataFor
    rw [dataFor_music, hmusic, Option.getD_some]
  · intro hnone
    have hmusic : s.music = none := by
      rw [hmusic]
      rcases hnone with ho | hf | hf
      · rw [if_neg (by rw [ho]; decide)]
      · rw [dataFile_of_not_isFile hf, ite_self]
      · rw [dataFile_of_find hf, if_pos rfl, ite_self]
    apply servedFrom_of_dataFor
    rw [dataFor_music, hmusic, Option.getD_none, hdata]

def musicCache (music : Bytes) : Directory where
  root := "/c"
  entries :=
    [(["main_file_cache.dat2"], some (List.replicate 520 0 ++ [0, 0, 0, 0, 0, 0, 0, 40] ++ [1, 2, 3, 4])),
    (["main_file_cache.dat2m"], some music),
    (["main_file_cache.idx40"], some [0, 0, 4, 0, 0, 1]),
    (["main_file_cache.idx255"], some [])]

/-- If the music file holds that group too, it is read from there. -/
theorem servedFrom_of_openAt_musicCache :
    let music : Bytes := List.replicate 520 0 ++ [0, 0, 0, 0, 0, 0, 0, 40] ++ [5, 6, 7, 8]
    ∃ s, openAt (musicCache music) "/c" {} = .ok s ∧ s.readChain 40 0 ⟨1, 4⟩ = .ok [5, 6, 7, 8] := by
  intro music
  have hlayout : (openAt (musicCache music) "/c" {}).map DiskStore.layout = .ok .js5 := by decide +kernel
  have hfind : (musicCache music).find (joinPath "/c" musicName) = .file music := by decide +kernel
  have hread : SectorChain.Source.read ⟨music.toArray, .js5, 40, 0⟩ ⟨1, 4⟩ = .ok [5, 6, 7, 8] := by
    decide +kernel
  obtain ⟨s, hs, hl⟩ := map_eq_ok hlayout
  obtain ⟨main, -, -, hserved, -⟩ := servedFrom_of_openAt hs
  have hchain := (hserved music rfl hfind (by decide)).readChain 0 ⟨1, 4⟩
  rw [← hl] at hchain
  exact ⟨s, hs, hchain.trans hread⟩

/-- A music file without any bytes holds no sectors, but the group is read all the same, from the main data
file. -/
theorem not_servedFrom_empty_music : ∃ s, openAt (musicCache []) "/c" {} = .ok s ∧
    (musicCache []).find (joinPath "/c" musicName) = .file [] ∧
    (s.read (musicCache []) 40 0).1 = .ok [1, 2, 3, 4] ∧ ¬ s.ServedFrom Store.musicArchive [] := by
  have hread : (openAt (musicCache []) "/c" {}).map (fun s => (s.layout, (s.read (musicCache []) 40 0).1,
      s.readChain 40 0 ⟨1, 4⟩)) = .ok (.js5, .ok [1, 2, 3, 4], .ok [1, 2, 3, 4]) := by decide +kernel
  have hfind : (musicCache []).find (joinPath "/c" musicName) = .file [] := by decide +kernel
  have hempty : SectorChain.Source.read ⟨#[], .js5, 40, 0⟩ ⟨1, 4⟩ = .error (.sectorOutOfBounds 40 0 1) := by
    decide +kernel
  obtain ⟨s, hs, he⟩ := map_eq_ok hread
  simp only [Prod.mk.injEq] at he
  obtain ⟨hl, hr, hc⟩ := he
  refine ⟨s, hs, hfind, hr.symm, fun hserved => ?_⟩
  have hchain := hserved.readChain 0 ⟨1, 4⟩
  rw [← hl] at hchain
  cases hc.trans (hchain.trans hempty)

end Js5.DiskStore
