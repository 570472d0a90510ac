import Js5.Codec.Bits

/-! # Canonical Huffman codes: each word is one more than the last, shorter words first -/

namespace Js5

structure Huffman where
  counts : List Nat
  symbols : Array Nat

namespace Huffman

def symbolsOf (lengths : List Nat) (n : Nat) : List Nat :=
  lengths.zipIdx.filterMap fun (l, s) => if l = n then some s else none

/-- The code with these lengths, none above `longest`. A symbol of length zero has no word. -/
def ofLengths (longest : Nat) (lengths : List Nat) : Huffman :=
  let groups := (List.range' 1 longest).map (symbolsOf lengths)
  ⟨groups.map List.length, groups.flatten.toArray⟩

/-- The share of all words of length `longest` that begin with a word of the code. -/
def covered (longest : Nat) (lengths : List Nat) : Nat :=
  (lengths.filter (0 < ·)).foldl (fun n l => n + 1 <<< (longest - l)) 0

def isComplete (longest : Nat) (lengths : List Nat) : Bool := covered longest lengths = 1 <<< longest

/-- Reads on, bit by bit, from the bits `word`. The words of the next length start at twice `first`, and
`before` words are shorter. -/
def readFrom (h : Huffman) (bit : Bits.Read Nat) (word first before : Nat) : List Nat → Bits.Read Nat
  | [] => throw .faulty
  | count :: counts => do
    let word := 2 * word + (← bit)
    let first := 2 * first
    if word < first + count then
      match h.symbols[before + (word - first)]? with
      | some s => return s
      | none => throw .faulty
    else h.readFrom bit word (first + count) (before + count) counts

def read (h : Huffman) (bit : Bits.Read Nat) : Bits.Read Nat := h.readFrom bit 0 0 0 h.counts

end Huffman

end Js5
