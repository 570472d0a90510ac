import Js5.Envelope

/-! # Writing envelopes: the declared length is enciphered with the payload -/

namespace Js5.Envelope

def plainBody (compression : Compression) (payload : Bytes) (declared : Nat) : Bytes :=
  match compression with
  | .none => payload
  | _ => Bytes.ofNat 4 declared ++ payload

def write (compression : Compression) (payload : Bytes) (declared : Nat) (key : Option Xtea.Key) : Bytes :=
  let body := plainBody compression payload declared
  compression.toByte :: Bytes.ofNat 4 payload.length ++
    match key with
    | none => body
    | some k => Xtea.encipher k body

def pack (compress : Compression → Bytes → Bytes) (compression : Compression) (data : Bytes)
    (key : Option Xtea.Key) : Bytes :=
  write compression (compress compression data) data.length key

end Js5.Envelope
