import Js5.Codec.Bzip2
import Js5.Codec.Gzip
import Js5.Codec.Lzma
import Js5.Cursor
import Js5.ErrorKind
import Js5.Xtea

/-!
# Envelopes

A byte for the compression, the length of the payload, then the body, which may be enciphered: the payload
and, where it is compressed, its decompressed length in front of it. Two bytes of version may follow.
-/

namespace Js5

inductive Compression where
  | none
  | bzip2
  | gzip
  | lzma
  deriving DecidableEq, Repr

namespace Compression

def ofByte? : UInt8 → Option Compression
  | 0 => some .none
  | 1 => some .bzip2
  | 2 => some .gzip
  | 3 => some .lzma
  | _ => Option.none

def toByte : Compression → UInt8
  | .none => 0
  | .bzip2 => 1
  | .gzip => 2
  | .lzma => 3

def name : Compression → String
  | .none => "None"
  | .bzip2 => "Bzip2"
  | .gzip => "Gzip"
  | .lzma => "Lzma"

def lengthField : Compression → Nat
  | .none => 0
  | _ => 4

end Compression

inductive DecompressionFailure where
  | lengthMismatch (expected actual : Nat)
  | codec
  deriving DecidableEq, Repr

structure Envelope where
  compression : Compression
  compressedLength : Nat
  uncompressedLength : Nat
  version : Option UInt16
  data : Bytes
  deriving DecidableEq, Repr

namespace Envelope

inductive Error where
  | truncated (needed available : Nat)
  | unsupportedCompression (type : UInt8)
  | negativeLength (length : Int32)
  | decompression (compression : Compression) (reason : DecompressionFailure)
  | outOfBounds (e : OutOfBounds)
  deriving DecidableEq, Repr

namespace Error

def kind : Error → ErrorKind
  | .decompression .. => .corruption
  | _ => .format

def message : Error → String
  | .truncated needed available => s!"data truncated: needed {needed} bytes, {available} available"
  | .unsupportedCompression type => s!"unsupported compression type {type.toNat}"
  | .negativeLength length => s!"length is negative: {length.toInt}"
  | .decompression compression (.lengthMismatch expected actual) =>
    s!"{compression.name} decompression failed: decompressed to {actual} bytes, expected {expected}"
  | .decompression compression .codec => s!"{compression.name} decompression failed"
  | .outOfBounds e => e.message

end Error

/-! ## Payloads -/

def checkLength (data : Bytes) (declared : Nat) : Except DecompressionFailure Bytes :=
  if data.length = declared then .ok data else .error (.lengthMismatch declared data.length)

/-- Asks a decompressor for one byte more than declared, so that a longer output is noticed. -/
def readDeclared (delivery : Delivery Unit) (declared : Nat) : Except DecompressionFailure Bytes :=
  match delivery.pull (declared + 1) #[] with
  | none => .error .codec
  | some out => checkLength out.toList declared

def mostRoom : Nat := 1048576

def probe : Nat := 32

/-- How many bytes the request after `answered` ones is for. The room for what is declared is filled, and
doubled whenever it is too small; a probe comes first where it is full for the first time, or tiny. -/
def request (declared answered : Nat) : Nat :=
  let room := min declared mostRoom
  let size :=
    if answered = room || (answered = 0 && room < probe) then probe
    else if answered < room then room - answered
    else (room <<< (Nat.log2 (answered / room) + 1)) - answered
  min (declared + 1 - answered) size

/-- Payloads are kept without the header of their stream: the letters BZh and the digit 1. -/
def bzip2Header : Bytes := [0x42, 0x5a, 0x68, 0x31]

def decompress (compression : Compression) (payload : Bytes) (declared : Nat) :
    Except DecompressionFailure Bytes :=
  match compression with
  | .none => checkLength payload declared
  | .bzip2 => readDeclared (Bzip2.decode (bzip2Header ++ payload) (request declared)) declared
  | .gzip => readDeclared (Gzip.decode payload) declared
  | .lzma =>
    match Lzma.decode payload declared with
    | some out => checkLength out.toList declared
    | none => .error .codec

/-! ## Reading -/

def headerSize : Nat := 5

abbrev Read := StateT Cursor (Except Error)

instance : MonadLift Cursor.Read Read where
  monadLift read := fun c => (read c).mapError .outOfBounds

def length : Read Nat := do
  let n ← Cursor.i32
  if n < 0 then
    throw (.negativeLength n)
  return n.toNatClampNeg

/-- The body with its encipherment taken off. A key of zeros stands for none. -/
def plain (key : Option Xtea.Key) (body : Bytes) : Bytes :=
  match key with
  | none => body
  | some k => if k.isZero then body else Xtea.decipher k body

def openBody (compression : Compression) : Read (Nat × Bytes) := do
  let declared ← length
  let payload ← Cursor.takeRest
  match decompress compression payload declared with
  | .ok data => return (declared, data)
  | .error reason => throw (.decompression compression reason)

def read (available : Nat) (key : Option Xtea.Key) : Read Envelope := do
  if available < headerSize then
    throw (.truncated headerSize available)
  let type ← Cursor.u8
  let some compression := Compression.ofByte? type | throw (.unsupportedCompression type)
  let compressedLength ← length
  let needed := compressedLength + compression.lengthField
  let behind ← Cursor.takeRest
  if behind.length < needed then
    throw (.truncated needed behind.length)
  let version :=
    match behind.drop needed with
    | hi :: lo :: _ => some (UInt16.ofNat (Bytes.toNat [hi, lo]))
    | _ => none
  let body := plain key (behind.take needed)
  match compression with
  | .none => return ⟨compression, compressedLength, compressedLength, version, body⟩
  | _ =>
    let (declared, data) ← liftM ((openBody compression).run' (.ofBytes body))
    return ⟨compression, compressedLength, declared, version, data⟩

def decode (input : Bytes) (key : Option Xtea.Key) : Except Error Envelope :=
  (read input.length key).run' (.ofBytes input)

/-- How many bytes the envelope takes without its version, as far as its header can be read and no more than
there are. -/
def packedLength (input : Bytes) : Nat :=
  match (do return (← Cursor.u8, ← Cursor.i32) : Cursor.Read _).run' (.ofBytes input) with
  | .error _ => input.length
  | .ok (type, length) =>
    min (headerSize + length.toNatClampNeg + (if type = 0 then 0 else 4)) input.length

end Envelope

end Js5
