import Js5.Bytes

/-! # Cyclic redundancy checks, of both bit orders: gzip takes the low bit first, bzip2 the high bit -/

namespace Js5

namespace Crc32

def lowBit (c : UInt32) : UInt32 :=
  if c &&& 1 = 1 then (c >>> 1) ^^^ 0xedb88320 else c >>> 1

def highBit (c : UInt32) : UInt32 :=
  if c >>> 31 = 1 then (c <<< 1) ^^^ 0x04c11db7 else c <<< 1

def lowByte (c : UInt32) (x : UInt8) : UInt32 := Nat.repeat lowBit 8 (c ^^^ x.toUInt32)

def highByte (c : UInt32) (x : UInt8) : UInt32 := Nat.repeat highBit 8 (c ^^^ (x.toUInt32 <<< 24))

end Crc32

def crc32 (b : Bytes) : UInt32 := ~~~ b.foldl Crc32.lowByte 0xffffffff

def crc32High (b : Bytes) : UInt32 := ~~~ b.foldl Crc32.highByte 0xffffffff

end Js5
