import Js5.IndexFile

/-! # Writing index files -/

namespace Js5

def IndexRecord.toBytes (r : IndexRecord) : Bytes :=
  Bytes.ofNat 3 r.length.toNat ++ Bytes.ofNat 3 r.sector.toNat

def IndexRecord.unused : IndexRecord := ⟨0, 0⟩

def IndexFile.ofGroups (groups : List (UInt32 × IndexRecord)) : Bytes :=
  let size := groups.foldl (fun n g => max n (g.1.toNat + 1)) 0
  (List.range size).flatMap fun g => ((groups.lookup (UInt32.ofNat g)).getD .unused).toBytes

end Js5
