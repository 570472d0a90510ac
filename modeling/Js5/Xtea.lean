import Js5.Bytes

/-! # The XTEA cipher: thirty-two rounds over blocks of two words -/

namespace Js5

namespace Xtea

structure Key where
  k0 : UInt32
  k1 : UInt32
  k2 : UInt32
  k3 : UInt32
  deriving DecidableEq, Repr

/-- The key of four zeros, which stands for no key. -/
def Key.isZero (k : Key) : Bool := k.k0 = 0 ∧ k.k1 = 0 ∧ k.k2 = 0 ∧ k.k3 = 0

def Key.word (k : Key) (i : UInt32) : UInt32 :=
  match (i &&& 3).toNat with
  | 0 => k.k0
  | 1 => k.k1
  | 2 => k.k2
  | _ => k.k3

structure State where
  v0 : UInt32
  v1 : UInt32
  sum : UInt32

def delta : UInt32 := 0x9e3779b9

def rounds : Nat := 32

def mix (v : UInt32) : UInt32 := ((v <<< 4) ^^^ (v >>> 5)) + v

def firstHalf (k : Key) (sum v : UInt32) : UInt32 := mix v ^^^ (sum + k.word sum)

def secondHalf (k : Key) (sum v : UInt32) : UInt32 := mix v ^^^ (sum + k.word (sum >>> 11))

def encipherRound (k : Key) (s : State) : State :=
  let v0 := s.v0 + firstHalf k s.sum s.v1
  let sum := s.sum + delta
  ⟨v0, s.v1 + secondHalf k sum v0, sum⟩

def decipherRound (k : Key) (s : State) : State :=
  let v1 := s.v1 - secondHalf k s.sum s.v0
  let sum := s.sum - delta
  ⟨s.v0 - firstHalf k sum v1, v1, sum⟩

@[simp] theorem decipherRound_encipherRound (k : Key) (s : State) :
    decipherRound k (encipherRound k s) = s := by
  simp [decipherRound, encipherRound]

@[simp] theorem encipherRound_decipherRound (k : Key) (s : State) :
    encipherRound k (decipherRound k s) = s := by
  simp [decipherRound, encipherRound]

def encipherBlock (k : Key) (v : UInt32 × UInt32) : UInt32 × UInt32 :=
  let s := Nat.repeat (encipherRound k) rounds ⟨v.1, v.2, 0⟩
  (s.v0, s.v1)

def decipherBlock (k : Key) (v : UInt32 × UInt32) : UInt32 × UInt32 :=
  let s := Nat.repeat (decipherRound k) rounds ⟨v.1, v.2, delta * UInt32.ofNat rounds⟩
  (s.v0, s.v1)

def word (a b c d : UInt8) : UInt32 := UInt32.ofNat (Bytes.toNat [a, b, c, d])

/-- `f` on every whole block of eight bytes, appended to `done`; shorter ends stay as they are. -/
def mapBlocks (f : UInt32 × UInt32 → UInt32 × UInt32) (done : Array UInt8) : Bytes → Array UInt8
  | a :: b :: c :: d :: e :: g :: h :: i :: rest =>
    let v := f (word a b c d, word e g h i)
    mapBlocks f (done ++ Bytes.ofNat 4 v.1.toNat ++ Bytes.ofNat 4 v.2.toNat) rest
  | rest => done ++ rest

def encipher (k : Key) (b : Bytes) : Bytes := (mapBlocks (encipherBlock k) #[] b).toList

def decipher (k : Key) (b : Bytes) : Bytes := (mapBlocks (decipherBlock k) #[] b).toList

end Xtea

end Js5
