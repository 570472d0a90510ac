import Js5.Store.Error

/-!
# Index files

A row of records of six bytes, one for each group id from zero on. A record that names sector zero is not in
use.
-/

namespace Js5

structure IndexRecord where
  sector : UInt32
  length : UInt32
  deriving DecidableEq, Repr

def IndexRecord.isUnused (r : IndexRecord) : Bool := r.sector = 0

structure IndexFile where
  records : Array IndexRecord
  deriving DecidableEq, Repr

namespace IndexFile

def recordSize : Nat := 6

def readRecord : Cursor.Read IndexRecord := do
  let length ← Cursor.u24
  let sector ← Cursor.u24
  return ⟨sector, length⟩

def readRecords (done : Array IndexRecord) : (count : Nat) → Cursor.Read (Array IndexRecord)
  | 0 => return done
  | count + 1 => do
    readRecords (done.push (← readRecord)) count

def parse (archive : UInt8) (b : Bytes) : Except StoreError IndexFile :=
  if b.length % recordSize ≠ 0 then .error (.invalidFormat archive b.length)
  else
    match (readRecords #[] (b.length / recordSize)).run' (.ofBytes b) with
    | .ok records => .ok ⟨records⟩
    | .error e => .error (.outOfBounds e)

def size (f : IndexFile) : Nat := f.records.size

def get? (f : IndexFile) (group : UInt32) : Option IndexRecord :=
  f.records[group.toNat]?.filter (!·.isUnused)

/-- The places of the records that are in use, as ids. -/
def groups (f : IndexFile) : List UInt32 :=
  (f.records.toList.zipIdx.filter (!·.1.isUnused)).map fun (_, place) => UInt32.ofNat place

end IndexFile

end Js5
