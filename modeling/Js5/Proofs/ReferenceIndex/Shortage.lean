import Js5.Proofs.Cursor.Triple
import Js5.Proofs.ReferenceIndex.Fields

/-! # Errors about missing bytes of a reference index are true -/

namespace Js5.ReferenceIndex

open Cursor (Keeps keeps_pure keeps_throw)

/-- The error, if it is about missing bytes, is right about them. -/
def Error.IsExact (size : Nat) (e : Error) : Prop := ∀ s, e = .outOfBounds s → s.IsShortage size

variable {d : Array UInt8} {α : Type}

theorem Field.keeps {read : Cursor.Read α} (h : Field read) :
    Keeps (fun c => c.data = d) read (OutOfBounds.IsShortage d.size) := by
  induction h with
  | bytes n => exact Cursor.keeps_take n
  | smart => exact Cursor.keeps_smart
  | value _ f ih => exact ih.map f

theorem Plain.keeps {read : Read α} (h : Plain read) :
    Keeps (fun c => c.data = d) read (Error.IsExact d.size) := by
  induction h with
  | pure v => exact keeps_pure v
  | throw h => exact keeps_throw fun s hs => absurd hs (h s)
  | field h =>
    exact h.keeps.mapError fun e he s hs => by
      cases hs
      exact he
  | bind _ _ ih ihf => exact ih.bind ihf

theorem isShortage_of_ofBytes {b : Bytes} {s : OutOfBounds} (h : ofBytes b = .error (.outOfBounds s)) :
    s.IsShortage b.length :=
  plain_readIndex.keeps.run'_error (P := fun c => c.data = b.toArray) rfl h s rfl

end Js5.ReferenceIndex
