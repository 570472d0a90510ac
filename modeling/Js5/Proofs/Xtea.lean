import Js5.Bytes.Lemmas
import Js5.Xtea

/-!
# Deciphering what was enciphered

A round of deciphering takes back a round of enciphering, and the sum that selects key words runs back to
where it started. So the two directions undo each other on a block, and block by block on any input.
-/

namespace Js5.Xtea

theorem Key.isZero_iff {k : Key} : k.isZero = true ↔ k = ⟨0, 0, 0, 0⟩ := by
  obtain ⟨k0, k1, k2, k3⟩ := k
  simp [isZero]

/-! ## Blocks -/

/-- What one step takes back, as many steps take back: the last to be made is the first to be undone. -/
theorem repeat_repeat {α : Type} {f g : α → α} (h : ∀ s, g (f s) = s) : ∀ (n : Nat) (s : α),
    Nat.repeat g n (Nat.repeat f n s) = s
  | 0, _ => rfl
  | n + 1, s => by
    have hr : ∀ (m : Nat) (t : α), Nat.repeat g (m + 1) t = Nat.repeat g m (g t) := by
      intro m
      induction m with
      | zero => intro t; rfl
      | succ m ih => intro t; exact congrArg g (ih t)
    rw [hr, Nat.repeat, h, repeat_repeat h n s]

theorem sum_repeat_encipherRound (k : Key) (s : State) : ∀ n : Nat,
    (Nat.repeat (encipherRound k) n s).sum = s.sum + delta * UInt32.ofNat n
  | 0 => by simp [Nat.repeat]
  | n + 1 => by
    show (Nat.repeat (encipherRound k) n s).sum + delta = _
    rw [sum_repeat_encipherRound k s n, UInt32.ofNat_add, UInt32.mul_add, UInt32.add_assoc]
    simp

theorem sum_repeat_decipherRound (k : Key) (s : State) (n : Nat) :
    (Nat.repeat (decipherRound k) n s).sum = s.sum - delta * UInt32.ofNat n := by
  have h := sum_repeat_encipherRound k (Nat.repeat (decipherRound k) n s) n
  rw [repeat_repeat (encipherRound_decipherRound k)] at h
  rw [h, UInt32.add_sub_cancel]

theorem decipherBlock_encipherBlock (k : Key) (v : UInt32 × UInt32) :
    decipherBlock k (encipherBlock k v) = v := by
  have hs := sum_repeat_encipherRound k ⟨v.1, v.2, 0⟩ rounds
  have hr := repeat_repeat (decipherRound_encipherRound k) rounds ⟨v.1, v.2, 0⟩
  unfold decipherBlock encipherBlock
  rw [UInt32.zero_add] at hs
  simp only [← hs, hr]

theorem encipherBlock_decipherBlock (k : Key) (v : UInt32 × UInt32) :
    encipherBlock k (decipherBlock k v) = v := by
  have hs := sum_repeat_decipherRound k ⟨v.1, v.2, delta * UInt32.ofNat rounds⟩ rounds
  have hr := repeat_repeat (encipherRound_decipherRound k) rounds ⟨v.1, v.2, delta * UInt32.ofNat rounds⟩
  unfold encipherBlock decipherBlock
  rw [UInt32.sub_self] at hs
  simp only [← hs, hr]

/-! ## Whole inputs -/

def onBlocks (f : UInt32 × UInt32 → UInt32 × UInt32) : Bytes → Bytes
  | a :: b :: c :: d :: e :: g :: h :: i :: rest =>
    let v := f (word a b c d, word e g h i)
    Bytes.ofNat 4 v.1.toNat ++ (Bytes.ofNat 4 v.2.toNat ++ onBlocks f rest)
  | rest => rest

theorem toList_mapBlocks (f : UInt32 × UInt32 → UInt32 × UInt32) (done : Array UInt8) (b : Bytes) :
    (mapBlocks f done b).toList = done.toList ++ onBlocks f b := by
  fun_induction mapBlocks f done b with
  | case1 done a b c d e g h i rest v ih =>
    rw [ih, onBlocks]
    simp [v]
  | case2 done rest hr =>
    rw [onBlocks]
    · simp
    · exact hr

theorem length_onBlocks (f : UInt32 × UInt32 → UInt32 × UInt32) (b : Bytes) :
    (onBlocks f b).length = b.length := by
  fun_induction onBlocks f b with
  | case1 a b c d e g h i rest v ih => simp [ih]; omega
  | case2 => rfl

theorem word_ofNat (n : UInt32) : UInt32.ofNat (Bytes.toNat (Bytes.ofNat 4 n.toNat)) = n := by
  have hn : n.toNat < 256 ^ 4 := by simpa using n.toNat_lt
  rw [Bytes.toNat_ofNat_of_lt hn, UInt32.ofNat_toNat]

theorem ofNat_word (a b c d : UInt8) : Bytes.ofNat 4 (word a b c d).toNat = [a, b, c, d] := by
  unfold word
  have hn : Bytes.toNat [a, b, c, d] < 4294967296 := by simpa using Bytes.toNat_lt [a, b, c, d]
  rw [UInt32.toNat_ofNat_of_lt' hn]
  exact Bytes.ofNat_toNat [a, b, c, d]

theorem onBlocks_block (f : UInt32 × UInt32 → UInt32 × UInt32) (x y : UInt32) (rest : Bytes) :
    onBlocks f (Bytes.ofNat 4 x.toNat ++ (Bytes.ofNat 4 y.toNat ++ rest)) =
      Bytes.ofNat 4 (f (x, y)).1.toNat ++ (Bytes.ofNat 4 (f (x, y)).2.toNat ++ onBlocks f rest) := by
  have hx := word_ofNat x
  have hy := word_ofNat y
  obtain ⟨a, b, c, d, hb⟩ : ∃ a b c d, Bytes.ofNat 4 x.toNat = [a, b, c, d] := ⟨_, _, _, _, rfl⟩
  obtain ⟨e, p, h, i, he⟩ : ∃ a b c d, Bytes.ofNat 4 y.toNat = [a, b, c, d] := ⟨_, _, _, _, rfl⟩
  rw [hb] at hx ⊢
  rw [he] at hy ⊢
  show onBlocks f (a :: b :: c :: d :: e :: p :: h :: i :: rest) = _
  rw [onBlocks, show word a b c d = x from hx, show word e p h i = y from hy]

theorem onBlocks_onBlocks {f g : UInt32 × UInt32 → UInt32 × UInt32} (hg : ∀ v, g (f v) = v) (b : Bytes) :
    onBlocks g (onBlocks f b) = b := by
  fun_induction onBlocks f b with
  | case1 a b c d e p h i rest v ih =>
    rw [onBlocks_block, ih, Prod.eta, hg, ofNat_word, ofNat_word]
    rfl
  | case2 rest hr =>
    rw [onBlocks]
    exact hr

theorem decipher_eq (k : Key) (b : Bytes) : decipher k b = onBlocks (decipherBlock k) b := by
  rw [decipher, toList_mapBlocks, List.nil_append]

theorem encipher_eq (k : Key) (b : Bytes) : encipher k b = onBlocks (encipherBlock k) b := by
  rw [encipher, toList_mapBlocks, List.nil_append]

@[simp] theorem length_decipher (k : Key) (b : Bytes) : (decipher k b).length = b.length := by
  rw [decipher_eq, length_onBlocks]

@[simp] theorem length_encipher (k : Key) (b : Bytes) : (encipher k b).length = b.length := by
  rw [encipher_eq, length_onBlocks]

theorem decipher_encipher (k : Key) (b : Bytes) : decipher k (encipher k b) = b := by
  rw [decipher_eq, encipher_eq, onBlocks_onBlocks (decipherBlock_encipherBlock k)]

theorem encipher_decipher (k : Key) (b : Bytes) : encipher k (decipher k b) = b := by
  rw [decipher_eq, encipher_eq, onBlocks_onBlocks (encipherBlock_decipherBlock k)]

end Js5.Xtea
