import Js5.Cursor

/-! # Requests to cursors, and their replies, as values -/

namespace Js5.Cursor

inductive Request where
  | u8
  | u16
  | u24
  | u32
  | i32
  | smart
  | peek
  | skip (n : UInt64)
  | seek (position : UInt64)
  | take (n : UInt64)
  | takeRest
  deriving DecidableEq

inductive Value where
  | number (n : Int)
  | bytes (b : Bytes)
  | moved
  deriving DecidableEq

def Request.read : Request → Read Value
  | .u8 => return .number (← Cursor.u8).toNat
  | .u16 => return .number (← Cursor.u16).toNat
  | .u24 => return .number (← Cursor.u24).toNat
  | .u32 => return .number (← Cursor.u32).toNat
  | .i32 => return .number (← Cursor.i32).toInt
  | .smart => return .number (← Cursor.smart).toNat
  | .peek => return .number (← Cursor.peek).toNat
  | .skip n => do
    Cursor.skip n.toNat
    return .moved
  | .seek position => do
    Cursor.seek position.toNat
    return .moved
  | .take n => return .bytes (← Cursor.take n.toNat)
  | .takeRest => return .bytes (← Cursor.takeRest)

def ask (c : Cursor) (r : Request) : Except OutOfBounds Value × Cursor :=
  match r.read c with
  | .ok (v, c') => (.ok v, c')
  | .error e => (.error e, c)

/-- What requests leave behind, whether they are met or not. -/
def through (c : Cursor) (requests : List Request) : Cursor :=
  requests.foldl (fun c r => (c.ask r).2) c

end Js5.Cursor
