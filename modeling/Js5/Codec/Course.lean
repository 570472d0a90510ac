import Js5.Codec.Delivery

/-!
# Courses of decoders

A course is what a decoder puts out and how far into its input it has got by then. A request is answered
when the decoder has more to put out than was asked for, is done, or needs a further piece of input and has
something to answer with; a fault before that leaves it without an answer.
-/

namespace Js5

/-- Everything is said together with the number of input bytes that the decoder has taken in by then. A
decoder that halts because its input is exhausted would take one byte more than there are. A run without
bytes marks a place where the decoder waits if nothing more was asked for. -/
inductive Course (α : Type) where
  | done (result : α)
  | halted (taken : Nat)
  | emit (taken : Nat) (bytes : Bytes) (next : Unit → Course α)

inductive Progress (σ α : Type) where
  | done (result : α)
  | halted (taken : Nat)
  | emit (taken : Nat) (bytes : Bytes) (state : σ)
  | silent (state : σ)

def Course.ofSteps {σ α : Type} (step : σ → Progress σ α) : (steps : Nat) → σ → Course α
  | 0, _ => .halted 0
  | steps + 1, s =>
    match step s with
    | .done a => .done a
    | .halted taken => .halted taken
    | .emit taken bytes s => .emit taken bytes fun _ => ofSteps step steps s
    | .silent s => ofSteps step steps s

structure Supply where
  size : Nat
  piece : Nat

def Supply.through (s : Supply) (n : Nat) : Nat := min s.size ((n + s.piece - 1) / s.piece * s.piece)

structure Request where
  supplied : Nat
  answered : Nat
  answer : Array UInt8

namespace Request

def first : Request := ⟨0, 0, #[]⟩

/-- The next request, made of a decoder that has got as far as `taken`. If all input was taken in, there is
a further piece for it. -/
def renew (r : Request) (supply : Supply) (taken : Nat) : Request where
  supplied := if r.supplied = taken then supply.through (taken + 1) else max r.supplied (supply.through taken)
  answered := r.answered + r.answer.size
  answer := #[]

def isFull (r : Request) (ask : Nat → Nat) : Bool := ask r.answered ≤ r.answer.size

def put (supply : Supply) (ask : Nat → Nat) (taken : Nat) :
    Array UInt8 × Request → UInt8 → Array UInt8 × Request
  | (out, r), x =>
    if r.isFull ask then (out ++ r.answer, { r.renew supply taken with answer := #[x] })
    else (out, { r with answer := r.answer.push x })

def serve (r : Request) (supply : Supply) (ask : Nat → Nat) (taken : Nat) (bytes : Bytes) :
    Array UInt8 × Request :=
  let begun :=
    if !r.answer.isEmpty && (r.supplied < taken || r.isFull ask) then (r.answer, r.renew supply taken)
    else (#[], { r with supplied := max r.supplied (supply.through taken) })
  bytes.foldl (put supply ask taken) begun

end Request

/-- What a decoder hands on if the request that follows `n` answered bytes is for `ask n` bytes. -/
def Course.deliver {α : Type} (supply : Supply) (ask : Nat → Nat) (r : Request) : Course α → Delivery α
  | .done a => .emit r.answer.toList fun _ => .done a
  | .halted taken => if r.supplied < taken then .emit r.answer.toList fun _ => .failed else .failed
  | .emit taken bytes next =>
    let (out, r) := r.serve supply ask taken bytes
    if out.isEmpty then deliver supply ask r (next ())
    else .emit out.toList fun _ => deliver supply ask r (next ())

end Js5
