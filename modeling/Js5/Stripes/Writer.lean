import Js5.Stripes

/-! # Writing striped groups -/

namespace Js5.Stripes

def writeLengths (last : Nat) : (stripe : List Bytes) → Bytes
  | [] => []
  | chunk :: stripe =>
    Bytes.ofNat 4 (Int32.ofInt (chunk.length - last)).toUInt32.toNat ++ writeLengths chunk.length stripe

/-- A group in stripes of chunks, with `unused` bytes in front of the trailer. -/
def join (stripes : List (List Bytes)) (unused : Bytes) : Bytes :=
  stripes.flatMap List.flatten ++ unused ++ stripes.flatMap (writeLengths 0) ++ [UInt8.ofNat stripes.length]

/-- Chunk number `i` of a file that is cut into `n` chunks of nearly one length. -/
def cut (n i : Nat) (file : Bytes) : Bytes :=
  (file.take ((i + 1) * file.length / n)).drop (i * file.length / n)

def ofFiles (n : Nat) (files : List Bytes) : Bytes :=
  match files with
  | [file] => file
  | files => join ((List.range n).map fun i => files.map (cut n i)) []

end Js5.Stripes
