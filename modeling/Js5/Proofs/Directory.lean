import Js5.Store.Disk
import Mathlib.Algebra.Ring.Nat

/-! # Paths of the files of a cache lead to these files -/

namespace Js5

namespace Directory

def longestFileName : Nat := 22

/-- The path of a folder, short enough for the files in it to be found. -/
structure IsRoot (root : String) : Prop where
  ends : root.toList.getLast?.all (· = '/') = false
  zero : '\x00' ∉ root.toList
  short : root.utf8ByteSize + 1 + longestFileName ≤ longestPath

structure IsFileName (name : String) : Prop where
  slash : '/' ∉ name.toList
  zero : '\x00' ∉ name.toList
  special : name ∉ ["", ".", ".."]
  short : name.utf8ByteSize ≤ longestFileName

instance (name : String) : Decidable (IsFileName name) :=
  decidable_of_iff ('/' ∉ name.toList ∧ '\x00' ∉ name.toList ∧ name ∉ ["", ".", ".."] ∧
      name.utf8ByteSize ≤ longestFileName)
    ⟨fun ⟨h₁, h₂, h₃, h₄⟩ => ⟨h₁, h₂, h₃, h₄⟩,
      fun ⟨h₁, h₂, h₃, h₄⟩ => ⟨h₁, h₂, h₃, h₄⟩⟩

variable {root name : String}

theorem joinPath_eq (hr : IsRoot root) (hn : IsFileName name) : joinPath root name = root ++ "/" ++ name := by
  have hs : name.toList.head? ≠ some '/' := by
    intro h
    exact hn.slash (List.mem_of_head? h)
  unfold joinPath
  rw [if_neg hs, if_neg (by rw [hr.ends]; exact Bool.false_ne_true)]

theorem splitPath_of_notMem (cs name : List Char) (h : '/' ∉ cs) :
    splitPath name cs = [String.ofList (name.reverse ++ cs)] := by
  induction cs generalizing name with
  | nil => simp [splitPath]
  | cons c cs ih =>
    rw [List.mem_cons, not_or] at h
    rw [splitPath, if_neg (Ne.symm h.1), ih (c :: name) h.2]
    simp

variable {d : Directory}

theorem find_root (hr : IsRoot d.root) : d.find d.root = .folder := by
  have hs := hr.short
  have hl : ¬ (longestPath < d.root.utf8ByteSize || '\x00' ∈ d.root.toList) = true := by
    simp only [Bool.or_eq_true, decide_eq_true_eq, not_or]
    exact ⟨by omega, hr.zero⟩
  unfold find
  rw [if_neg hl, if_pos (by simp)]
  simp

theorem walk_fileName (d : Directory) (hn : IsFileName name) : d.walk [] [name] = d.entry [name] := by
  have hs : ¬ name = "" ∧ ¬ name = "." ∧ ¬ name = ".." := by simpa using hn.special
  have hl : ¬ longestName < name.utf8ByteSize := by
    have := hn.short
    unfold longestFileName at this
    unfold longestName
    omega
  have he : d.entry [] = .folder := rfl
  simp [walk, he, hs, hl]

theorem find_joinPath (hr : IsRoot d.root) (hn : IsFileName name) :
    d.find (joinPath d.root name) = d.entry [name] := by
  have hrs := hr.short
  have hns := hn.short
  have hlist : (d.root ++ "/" ++ name).toList = d.root.toList ++ '/' :: name.toList := by simp
  have hsize : (d.root ++ "/" ++ name).utf8ByteSize = d.root.utf8ByteSize + 1 + name.utf8ByteSize := by
    rw [String.utf8ByteSize_append, String.utf8ByteSize_append]
    rfl
  have hzero : '\x00' ∉ (d.root ++ "/" ++ name).toList := by
    rw [hlist, List.mem_append, List.mem_cons, not_or, not_or]
    exact ⟨hr.zero, by decide, hn.zero⟩
  have hl : ¬ (longestPath < (d.root ++ "/" ++ name).utf8ByteSize ||
      '\x00' ∈ (d.root ++ "/" ++ name).toList) = true := by
    simp only [Bool.or_eq_true, decide_eq_true_eq, not_or]
    exact ⟨by omega, hzero⟩
  have hd : (d.root ++ "/" ++ name).toList.drop d.root.toList.length = '/' :: name.toList := by
    rw [hlist, List.drop_left]
  rw [joinPath_eq hr hn]
  unfold find
  rw [if_neg hl, if_pos (by rw [hlist]; simp), hd]
  simp only [splitPath_of_notMem name.toList [] hn.slash, List.reverse_nil, List.nil_append,
    String.ofList_toList]
  exact walk_fileName d hn

end Directory

/-! ## The names of the files -/

namespace DiskStore

theorem isFileName_dataName : Directory.IsFileName (dataName .js5) := by decide

theorem isFileName_musicName : Directory.IsFileName musicName := by decide

end DiskStore

namespace IndexFiles

def fileName (archive : UInt8) : String := s!"main_file_cache.idx{archive.toNat}"

theorem path_eq (s : IndexFiles) (archive : UInt8) : s.path archive = joinPath s.root (fileName archive) :=
  rfl

theorem toList_fileName (archive : UInt8) :
    (fileName archive).toList = "main_file_cache.idx".toList ++ Nat.toDigits 10 archive.toNat := by
  show ("main_file_cache.idx" ++ archive.toNat.repr).toList = _
  rw [String.toList_append, Nat.toList_repr]

theorem repr_facts :
    ∀ n < 256, n.repr.utf8ByteSize ≤ 3 ∧ '/' ∉ Nat.toDigits 10 n ∧ '\x00' ∉ Nat.toDigits 10 n := by
  decide +kernel

theorem isFileName_fileName (archive : UInt8) : Directory.IsFileName (fileName archive) := by
  obtain ⟨hsize, hslash, hzero⟩ := repr_facts archive.toNat archive.toNat_lt
  have hl := congrArg List.length (toList_fileName archive)
  refine ⟨?_, ?_, ?_, ?_⟩
  · rw [toList_fileName, List.mem_append, not_or]
    exact ⟨by decide, hslash⟩
  · rw [toList_fileName, List.mem_append, not_or]
    exact ⟨by decide, hzero⟩
  · intro h
    have hs : (fileName archive).toList.length ≤ 2 := by
      simp only [List.mem_cons, List.not_mem_nil, or_false] at h
      rcases h with h | h | h <;> rw [h] <;> decide
    rw [hl, List.length_append] at hs
    exact absurd (Nat.le_trans (Nat.le_add_right ..) hs) (by decide)
  · show ("main_file_cache.idx" ++ archive.toNat.repr).utf8ByteSize ≤ _
    rw [String.utf8ByteSize_append]
    exact Nat.add_le_add_left hsize 19

theorem fileName_ne {archive : UInt8} {name : String} (h : name.toList[16]? ≠ some 'i') :
    fileName archive ≠ name := by
  intro hn
  apply h
  rw [← hn, toList_fileName, List.getElem?_append_left (by decide)]
  rfl

theorem fileName_ne_dataName (archive : UInt8) : fileName archive ≠ DiskStore.dataName .js5 :=
  fileName_ne (by decide)

theorem fileName_ne_musicName (archive : UInt8) : fileName archive ≠ DiskStore.musicName :=
  fileName_ne (by decide)

theorem toDigits_inj {m n : Nat} (hm : m < 256) (hn : n < 256)
    (h : Nat.toDigits 10 m = Nat.toDigits 10 n) : m = n := by
  have value : ∀ n < 256, (Nat.toDigits 10 n).foldl (fun n c => 10 * n + (c.toNat - '0'.toNat)) 0 = n := by
    decide +kernel
  rw [← value m hm, ← value n hn, h]

theorem fileName_inj {a b : UInt8} (h : fileName a = fileName b) : a = b := by
  have hd := congrArg String.toList h
  rw [toList_fileName, toList_fileName, List.append_cancel_left_eq] at hd
  exact UInt8.toNat_inj.mp (toDigits_inj a.toNat_lt b.toNat_lt hd)

end IndexFiles

end Js5
