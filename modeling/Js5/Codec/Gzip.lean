import Js5.Codec.Inflate
import Js5.Crc32

/-! # Gzip: a header, a deflate stream and a trailer, behind which nothing is read -/

namespace Js5.Gzip

def window : Nat := 32768

def byte : Bits.Read Nat := Bits.lowFirst 8

def text : (most : Nat) → Bits.Read Unit
  | 0 => do
    if (← byte) ≠ 0 then
      throw .faulty
  | most + 1 => do
    if (← byte) ≠ 0 then
      text most

def longestText : Nat := 65535

def expect (value : Nat) : Bits.Read Unit := do
  if (← byte) ≠ value then
    throw .faulty

/-- Passes over the header. Its flags announce, from the low bit on, text (ignored), a checksum of the
header, an extra field, a name and a comment; the three bits above them are reserved. -/
def header : Bits.Read Unit := do
  expect 0x1f
  expect 0x8b
  expect 8
  let flags ← byte
  if 32 ≤ flags then
    throw .faulty
  let _ ← Bits.list 6 byte
  if flags.testBit 2 then
    let extra ← Bits.lowFirst 16
    let _ ← Bits.list extra byte
  if flags.testBit 3 then
    text longestText
  if flags.testBit 4 then
    text longestText
  if flags.testBit 1 then
    let sum := crc32 ((← get).data.extract 0 ((← get).position / 8)).toList
    if (← Bits.lowFirst 16) ≠ sum.toNat % 65536 then
      throw .faulty

def trailer (output : Array UInt8) : Bits.Read Unit := do
  Bits.align
  let sum ← Bits.lowFirst 32
  let length ← Bits.lowFirst 32
  if sum ≠ (crc32 output.toList).toNat || length ≠ output.size % UInt32.size then
    throw .faulty

def decode (payload : Bytes) : Delivery Unit :=
  match header.run (.ofBytes payload) with
  | .error .. => .failed
  | .ok _ bits =>
    let supply := ⟨payload.length, payload.length⟩
    ((Inflate.decode bits).deliver supply (fun _ => window) .first).andThen fun s =>
      match (trailer s.output).run s.bits with
      | .error .. => .failed
      | .ok .. => .done ()

end Js5.Gzip
