import Js5.Proofs.Checked.Envelope

/-!
# The cipher works block by block

Both directions of the cipher replace each whole block of eight bytes by another, whatever stands around it,
and leave the bytes behind the last whole block alone. On each block one direction takes back the other.
-/

namespace Js5.Xtea

/-- A map of bytes that changes whole blocks, each for itself, and keeps what is too short for one. -/
structure Blockwise (f : Bytes → Bytes) : Prop where
  length (b : Bytes) : (f b).length = b.length
  append {a : Bytes} (b : Bytes) : a.length % blockSize = 0 → f (a ++ b) = f a ++ f b
  short {b : Bytes} : b.length < blockSize → f b = b

theorem Blockwise.drop_whole {f : Bytes → Bytes} (h : Blockwise f) (b : Bytes) :
    (f b).drop (b.length - b.length % blockSize) = b.drop (b.length - b.length % blockSize) := by
  generalize hn : b.length - b.length % blockSize = n
  have hwhole : (b.take n).length = n := by
    rw [List.length_take]
    omega
  have hmod : (b.take n).length % blockSize = 0 := by
    rw [hwhole, ← hn]
    unfold blockSize
    omega
  have hrest : (b.drop n).length < blockSize := by
    rw [List.length_drop, ← hn]
    unfold blockSize
    omega
  have hsplit : f b = f (b.take n) ++ b.drop n := by
    rw [← h.short hrest, ← h.append _ hmod, List.take_append_drop]
  rw [hsplit, List.drop_left' ((h.length _).trans hwhole)]

theorem length_lt_of_no_block {b : Bytes}
    (h : ∀ x₀ x₁ x₂ x₃ y₀ y₁ y₂ y₃ tail,
      b = x₀ :: x₁ :: x₂ :: x₃ :: y₀ :: y₁ :: y₂ :: y₃ :: tail → False) :
    b.length < blockSize := by
  apply Nat.lt_of_not_le
  intro hle
  match b, hle with
  | x₀ :: x₁ :: x₂ :: x₃ :: y₀ :: y₁ :: y₂ :: y₃ :: tail, _ => exact h _ _ _ _ _ _ _ _ tail rfl

section
variable (f : UInt32 × UInt32 → UInt32 × UInt32)

theorem onBlocks_short {b : Bytes} (h : b.length < blockSize) : onBlocks f b = b := by
  fun_cases onBlocks f b with
  | case1 =>
    simp only [List.length_cons, blockSize] at h
    omega
  | case2 => rfl

theorem onBlocks_append {a : Bytes} (b : Bytes) (h : a.length % blockSize = 0) :
    onBlocks f (a ++ b) = onBlocks f a ++ onBlocks f b := by
  fun_induction onBlocks f a with
  | case1 x₀ x₁ x₂ x₃ y₀ y₁ y₂ y₃ tail v ih =>
    have htail : tail.length % blockSize = 0 := by
      simp only [List.length_cons, blockSize] at h ⊢
      omega
    simp [onBlocks, v, ih htail]
  | case2 a hr =>
    -- a whole number of blocks, but not one of them
    have hlt := length_lt_of_no_block hr
    rw [Nat.mod_eq_of_lt hlt] at h
    simp [List.eq_nil_of_length_eq_zero h]

theorem blockwise_onBlocks : Blockwise (onBlocks f) where
  length := length_onBlocks f
  append := onBlocks_append f
  short := onBlocks_short f

end

theorem blockwise_encipher (k : Key) : Blockwise (encipher k) :=
  funext (encipher_eq k) ▸ blockwise_onBlocks (encipherBlock k)

theorem blockwise_decipher (k : Key) : Blockwise (decipher k) :=
  funext (decipher_eq k) ▸ blockwise_onBlocks (decipherBlock k)

/-- **The directions of the cipher undo each other** under every key, the one of zeros included. Both keep
the length and the bytes behind the last whole block, and neither lets one block act on another. -/
theorem mutually_inverse_blockwise (k : Key) :
    (∀ b, decipher? k b = .ok (decipher k b)) ∧
    (∀ b, decipher k (encipher k b) = b) ∧ (∀ b, encipher k (decipher k b) = b) ∧
    ∀ f, f = encipher k ∨ f = decipher k →
      (∀ b, (f b).length = b.length) ∧
      (∀ b, (f b).drop (b.length - b.length % 8) = b.drop (b.length - b.length % 8)) ∧
      ∀ a b, a.length % 8 = 0 → f (a ++ b) = f a ++ f b := by
  refine ⟨decipher?_eq k, decipher_encipher k, encipher_decipher k, fun f hf => ?_⟩
  have hblocks : Blockwise f := by
    obtain h | h := hf
    · exact h ▸ blockwise_encipher k
    · exact h ▸ blockwise_decipher k
  exact ⟨hblocks.length, hblocks.drop_whole, fun a b => hblocks.append b⟩

/-- A block and three bytes more, under the key of zeros. -/
theorem mutually_inverse_blockwise_zero_key :
    let k : Key := ⟨0, 0, 0, 0⟩
    let block : Bytes := [1, 2, 3, 4, 5, 6, 7, 8]
    encipher k (block ++ [9, 10, 11]) = encipher k block ++ [9, 10, 11] ∧
      decipher? k (encipher k (block ++ [9, 10, 11])) = .ok (block ++ [9, 10, 11]) := by
  intro k block
  obtain ⟨hfinds, hback, -, hboth⟩ := mutually_inverse_blockwise k
  obtain ⟨-, hrest, happend⟩ := hboth (encipher k) (.inl rfl)
  refine ⟨?_, by rw [hfinds, hback]⟩
  rw [happend block [9, 10, 11] (Nat.mod_self 8)]
  exact congrArg (encipher k block ++ ·) (hrest [9, 10, 11])

end Js5.Xtea
