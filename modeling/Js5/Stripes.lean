import Js5.Cursor
import Js5.ErrorKind

/-!
# Striped groups

Each stripe holds one chunk of every file, in the order of the file ids. Behind the stripes stand, for each
of them, the lengths of its chunks as differences from the chunk before, and last the number of stripes.
-/

namespace Js5.Stripes

inductive Error where
  | empty
  | fileOutOfRange (file : UInt32) (files : Nat)
  | missingTrailer
  | trailerTooLarge (stripes : UInt8) (files length : Nat)
  | invalidChunkLength (stripe : Nat) (file : UInt32) (length : Int)
  | chunkOverrun (stripe : Nat) (file : UInt32) (stop limit : Nat)
  | outOfBounds (e : OutOfBounds)
  deriving DecidableEq, Repr

namespace Error

def kind : Error → ErrorKind
  | .fileOutOfRange .. => .notFound
  | .empty => .format
  | _ => .corruption

def message : Error → String
  | .empty => "group is empty"
  | .fileOutOfRange file files => s!"file {file.toNat} is not one of the {files} files in the group"
  | .missingTrailer => "group is missing its stripe count"
  | .trailerTooLarge stripes files length =>
    s!"trailer of {stripes.toNat} stripes for {files} files does not fit in {length} bytes"
  | .invalidChunkLength stripe file length =>
    s!"stripe {stripe} of file {file.toNat} has invalid length {length}"
  | .chunkOverrun stripe file stop limit =>
    s!"stripe {stripe} of file {file.toNat} ends at {stop}, past the trailer at {limit}"
  | .outOfBounds e => e.message

end Error

abbrev Read := StateT Cursor (Except Error)

instance : MonadLift Cursor.Read Read where
  monadLift read := fun c => (read c).mapError .outOfBounds

def lengthBound : Int := 2147483648

def trailerSize (stripes files : Nat) : Nat := stripes * files * 4 + 1

/-- The lengths of the chunks of one stripe, for the files in `ids`. The chunk before has length `last` and
ends at `stop`; no chunk may reach past `limit`. -/
def readStripe (limit stripe : Nat) (last : Int) (stop : Nat) (done : Array Nat) :
    (ids : List UInt32) → Read (Array Nat × Nat)
  | [] => return (done, stop)
  | id :: ids => do
    let length := last + (← Cursor.i32).toInt
    if length < 0 || lengthBound ≤ length then
      throw (.invalidChunkLength stripe id length)
    let stop := stop + length.toNat
    if limit < stop then
      throw (.chunkOverrun stripe id stop limit)
    readStripe limit stripe length stop (done.push length.toNat) ids

def readStripes (limit : Nat) (ids : List UInt32) (stripe stop : Nat) (done : Array (List Nat)) :
    (left : Nat) → Read (List (List Nat))
  | 0 => return done.toList
  | left + 1 => do
    let (lengths, stop) ← readStripe limit stripe 0 stop #[] ids
    readStripes limit ids (stripe + 1) stop (done.push lengths.toList) left

def readChunks (input : Bytes) (ids : List UInt32) : Read (List (List Bytes)) := do
  let some stripes := input.getLast? | throw .missingTrailer
  let trailer := trailerSize stripes.toNat ids.length
  if input.length < trailer then
    throw (.trailerTooLarge stripes ids.length input.length)
  let limit := input.length - trailer
  Cursor.seek limit
  let lengths ← readStripes limit ids 0 0 #[] stripes.toNat
  Cursor.seek 0
  lengths.mapM fun stripe => stripe.mapM fun length => liftM (Cursor.take length)

def chunks (input : Bytes) (ids : List UInt32) : Except Error (List (List Bytes)) :=
  (readChunks input ids).run' (.ofBytes input)

/-- All files of a group. A group of one file is that file. -/
def split (input : Bytes) (ids : List UInt32) : Except Error (List (UInt32 × Bytes)) :=
  match ids with
  | [] => .error .empty
  | [id] => .ok [(id, input)]
  | ids => do
    let stripes ← chunks input ids
    return ids.zip (stripes.foldr (List.zipWith (· ++ ·)) (List.replicate ids.length []))

/-- One file of a group. A group of one file is that file, whatever is asked for. -/
def file (input : Bytes) (ids : List UInt32) (id : UInt32) : Except Error Bytes :=
  match ids with
  | [] => .error .empty
  | [_] => .ok input
  | ids =>
    match ids.idxOf? id with
    | none => .error (.fileOutOfRange id ids.length)
    | some place => do
      let stripes ← chunks input ids
      return stripes.flatMap (·.getD place [])

end Js5.Stripes
