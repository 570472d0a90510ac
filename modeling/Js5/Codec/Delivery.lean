import Js5.Bytes

/-! # What a decompressor hands on as it is asked for more -/

namespace Js5

inductive Delivery (α : Type) where
  | done (result : α)
  | failed
  | emit (bytes : Bytes) (next : Unit → Delivery α)

namespace Delivery

def andThen {α β : Type} (d : Delivery α) (f : α → Delivery β) : Delivery β :=
  match d with
  | .done a => f a
  | .failed => .failed
  | .emit bytes next => .emit bytes fun _ => (next ()).andThen f

/-- Asks for bytes until there are `limit` of them or the delivery ends, after those `got` already. What
comes after byte number `limit` is never looked at. -/
def pull {α : Type} (limit : Nat) (got : Array UInt8) : Delivery α → Option (Array UInt8)
  | .done _ => some got
  | .failed => none
  | .emit bytes next =>
    let got := got ++ bytes
    if limit ≤ got.size then some (got.extract 0 limit) else pull limit got (next ())

end Delivery

end Js5
