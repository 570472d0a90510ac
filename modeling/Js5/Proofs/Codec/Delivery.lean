import Js5.Codec.Course

/-!
# What is delivered

The requests that are made of a decoder change when its bytes are handed on, and how many of them are lost
in a fault; neither the bytes nor the result of one that comes to its end.
-/

namespace Js5

namespace Delivery

variable {α : Type}

def bytes : Delivery α → Bytes
  | .done _ => []
  | .failed => []
  | .emit run next => run ++ (next ()).bytes

def result? : Delivery α → Option α
  | .done a => some a
  | .failed => none
  | .emit _ next => (next ()).result?

theorem pull_eq {limit : Nat} (d : Delivery α) {got : Array UInt8} (h : got.size < limit) : d.pull limit got =
    if limit ≤ got.size + d.bytes.length then some ((got.toList ++ d.bytes).take limit).toArray
    else if d.result?.isSome then some (got.toList ++ d.bytes).toArray else none := by
  induction d generalizing got with
  | done a =>
    rw [if_neg (show ¬ limit ≤ got.size + (done a).bytes.length from Nat.not_le.mpr h)]
    simp [pull, bytes, result?]
  | failed =>
    rw [if_neg (show ¬ limit ≤ got.size + (failed : Delivery α).bytes.length from Nat.not_le.mpr h)]
    simp [pull, result?]
  | emit run next ih =>
    have hsize : (got ++ run).size = got.size + run.length := by simp [← Array.length_toList]
    have hbytes : (emit run next).bytes = run ++ (next ()).bytes := rfl
    unfold pull
    dsimp only
    by_cases hl : limit ≤ (got ++ run).size
    · have hle : limit ≤ (got.toList ++ run).length := by
        rwa [List.length_append, Array.length_toList, ← hsize]
      have hlong : limit ≤ got.size + (emit run next).bytes.length := by
        rw [hbytes, List.length_append]
        omega
      rw [if_pos hl, if_pos hlong, hbytes, ← List.append_assoc, List.take_append_of_le_length hle]
      exact congrArg some (Array.ext' (by simp [List.extract_eq_take_drop]))
    · rw [if_neg hl, ih () (Nat.lt_of_not_le hl), hsize, hbytes, List.length_append, Nat.add_assoc,
        Array.toList_appendList, List.append_assoc]
      rfl

theorem pull_succ (d : Delivery α) (n : Nat) : d.pull (n + 1) #[] =
    if n < d.bytes.length then some (d.bytes.take (n + 1)).toArray
    else if d.result?.isSome then some d.bytes.toArray else none := by
  rw [pull_eq d (show (#[] : Array UInt8).size < n + 1 from Nat.succ_pos n)]
  simp only [List.size_toArray, List.length_nil, Nat.zero_add, List.nil_append, Nat.add_one_le_iff]

end Delivery

/-! ## Courses -/

namespace Course

variable {α : Type}

def bytes : Course α → Bytes
  | .done _ => []
  | .halted _ => []
  | .emit _ run next => run ++ (next ()).bytes

def result? : Course α → Option α
  | .done a => some a
  | .halted _ => none
  | .emit _ _ next => (next ()).result?

end Course

namespace Request

variable (supply : Supply) (ask : Nat → Nat) (taken : Nat)

/-- No byte is lost or repeated between the answers and the request under way. -/
theorem put_eq (p : Array UInt8 × Request) (x : UInt8) :
    (put supply ask taken p x).1 ++ (put supply ask taken p x).2.answer = (p.1 ++ p.2.answer).push x := by
  obtain ⟨out, r⟩ := p
  unfold put
  by_cases h : r.isFull ask
  · simp [h]
  · simp [h]

theorem foldl_put_eq (run : Bytes) (p : Array UInt8 × Request) :
    (run.foldl (put supply ask taken) p).1 ++ (run.foldl (put supply ask taken) p).2.answer =
      p.1 ++ p.2.answer ++ run := by
  induction run generalizing p with
  | nil => simp
  | cons x run ih =>
    rw [List.foldl_cons, ih, put_eq]
    simp

theorem serve_eq (r : Request) (run : Bytes) :
    (r.serve supply ask taken run).1 ++ (r.serve supply ask taken run).2.answer = r.answer ++ run := by
  unfold serve
  rw [foldl_put_eq]
  split
  · simp [renew]
  · simp

end Request

namespace Course

variable {α : Type} (supply : Supply) (ask : Nat → Nat)

theorem result?_deliver (c : Course α) (r : Request) : (c.deliver supply ask r).result? = c.result? := by
  induction c generalizing r with
  | done a => rfl
  | halted taken =>
    unfold deliver
    split
    · rfl
    · rfl
  | emit taken run next ih =>
    unfold deliver
    dsimp only
    split
    · exact ih () _
    · exact ih () _

theorem bytes_deliver_emit (r : Request) (taken : Nat) (run : Bytes) (next : Unit → Course α) :
    ((Course.emit taken run next).deliver supply ask r).bytes = (r.serve supply ask taken run).1.toList ++
      ((next ()).deliver supply ask (r.serve supply ask taken run).2).bytes := by
  rw [deliver]
  dsimp only
  by_cases h : (r.serve supply ask taken run).1.isEmpty
  · rw [if_pos h, Array.isEmpty_iff.mp h]
    rfl
  · rw [if_neg h]
    rfl

/-- Of the answer under way and of what is put out after it, at the most the end is lost; and nothing, if
the decoder comes to its end. -/
theorem bytes_deliver (c : Course α) (r : Request) :
    (c.deliver supply ask r).bytes <+: r.answer.toList ++ c.bytes ∧
      (c.result? ≠ none → (c.deliver supply ask r).bytes = r.answer.toList ++ c.bytes) := by
  induction c generalizing r with
  | done a => simp [deliver, Delivery.bytes, bytes]
  | halted taken =>
    refine ⟨?_, fun h => absurd rfl h⟩
    unfold deliver
    split
    · simp [Delivery.bytes, bytes]
    · exact List.nil_prefix
  | emit taken run next ih =>
    obtain ⟨hfront, hwhole⟩ := ih () (r.serve supply ask taken run).2
    -- what is answered now goes out, and the answer then under way stands in front of the rest
    have hserve : r.answer.toList ++ (Course.emit taken run next).bytes =
        (r.serve supply ask taken run).1.toList ++
        ((r.serve supply ask taken run).2.answer.toList ++ (next ()).bytes) := by
      have h := congrArg Array.toList (Request.serve_eq supply ask taken r run)
      rw [Array.toList_append, Array.toList_appendList] at h
      rw [bytes, ← List.append_assoc, ← List.append_assoc, h]
    rw [bytes_deliver_emit, hserve]
    exact ⟨(List.prefix_append_right_inj _).mpr hfront, fun h => congrArg _ (hwhole h)⟩

end Course

end Js5
