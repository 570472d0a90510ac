import Js5.Cursor
import Js5.ErrorKind

/-! # Errors of stores -/

namespace Js5

namespace Sector

inductive Field where
  | group
  | chunk
  | archive
  deriving DecidableEq, Repr

def Field.name : Field → String
  | .group => "group"
  | .chunk => "chunk"
  | .archive => "archive"

end Sector

inductive StoreError where
  | cacheNotFound (path : String)
  | invalidFormat (archive : UInt8) (length : Nat)
  | unknownArchive (archive : UInt8)
  | unknownGroup (archive : UInt8) (group : UInt32)
  | sectorMismatch (archive : UInt8) (group sector : UInt32) (field : Sector.Field) (expected actual : UInt32)
  | sectorOutOfBounds (archive : UInt8) (group sector : UInt32)
  | truncatedChain (archive : UInt8) (group : UInt32) (expected actual : Nat)
  | unterminatedChain (archive : UInt8) (group next : UInt32)
  | outOfBounds (e : OutOfBounds)
  | io
  deriving DecidableEq, Repr

namespace StoreError

def kind : StoreError → ErrorKind
  | .cacheNotFound _ | .unknownArchive _ | .unknownGroup .. => .notFound
  | .invalidFormat .. | .outOfBounds _ => .format
  | .sectorMismatch .. | .sectorOutOfBounds .. | .truncatedChain .. | .unterminatedChain .. => .corruption
  | .io => .io

def message : StoreError → String
  | .cacheNotFound path => s!"no cache found at {path}"
  | .invalidFormat archive length =>
    s!"invalid cache format: index of archive {archive.toNat} is {length} bytes, not a multiple of 6"
  | .unknownArchive archive => s!"archive {archive.toNat} not found"
  | .unknownGroup archive group => s!"group {group.toNat} not found in archive {archive.toNat}"
  | .sectorMismatch archive group sector field expected actual =>
    s!"sector {sector.toNat} of group ({archive.toNat}, {group.toNat}) "
      ++ s!"has {field.name} {actual.toNat}, expected {expected.toNat}"
  | .sectorOutOfBounds archive group sector =>
    s!"sector {sector.toNat} of group ({archive.toNat}, {group.toNat}) is outside the data file"
  | .truncatedChain archive group expected actual =>
    s!"sector chain of group ({archive.toNat}, {group.toNat}) ended after {actual} of {expected} bytes"
  | .unterminatedChain archive group next =>
    s!"sector chain of group ({archive.toNat}, {group.toNat}) "
      ++ s!"continues to sector {next.toNat} past its length"
  | .outOfBounds e => e.message
  | .io => "io error"

end StoreError

end Js5
