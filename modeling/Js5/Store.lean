import Js5.Sector
import Js5.Store.Error

/-! # Stores, which stand in a world that they read and never change -/

namespace Js5

class Store (World : outParam Type) (S : Type) where
  layout : S → Layout
  hasArchive : World → S → UInt8 → Bool
  list : World → S → UInt8 → Except StoreError (List UInt32) × S
  read : World → S → UInt8 → UInt32 → Except StoreError Bytes × S

namespace Store

/-- The archive whose groups are the reference indexes of the others. -/
def referenceArchive : UInt8 := 255

def musicArchive : UInt8 := 40

end Store

structure Options where
  verifyChecksums : Bool := true
  musicData : Bool := true
  deriving DecidableEq, Repr

end Js5
