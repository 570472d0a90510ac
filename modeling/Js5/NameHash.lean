import Js5.Bytes

/-! # Name hashes: the bytes of a name as a polynomial, taken at 31 modulo 2 ^ 32 -/

namespace Js5

def hashBytes (b : Bytes) : UInt32 := b.foldl (fun h x => 31 * h + x.toUInt32) 0

def nameHash (name : String) : UInt32 := hashBytes name.toUTF8.data.toList

end Js5
