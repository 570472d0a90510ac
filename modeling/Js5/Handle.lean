import Js5.Cache

/-! # Handles: texts end at the first zero, any pointer may be null, a failure is a null answer -/

namespace Js5

def pointedText (pointer : Option Bytes) : Option String :=
  pointer.bind fun b => String.fromUTF8? (b.takeWhile (· ≠ 0)).toByteArray

abbrev Handle := Option (Cache DiskStore)

namespace Handle

/-- What a read gives back: a buffer, or null, and what is now in the place for its length, if there is such
a place. -/
structure Reply where
  buffer : Option Bytes
  length : Option UInt32
  deriving DecidableEq, Repr

def openAt (d : Directory) (path : Option Bytes) : Handle :=
  match pointedText path with
  | none => none
  | some path => (Cache.openAt d path {}).toOption

/-- The reply to a request that was made of a cache; only a success changes the length. -/
def reply (length : UInt32) : Except CacheError Bytes × Cache DiskStore → Reply × Handle
  | (.ok data, c) => (⟨some data, some (UInt32.ofNat data.length)⟩, some c)
  | (.error _, c) => (⟨none, some length⟩, some c)

def read (d : Directory) (h : Handle) (archive : UInt8) (group : UInt32) (file : UInt16)
    (key : Option Xtea.Key) (length : Option UInt32) : Reply × Handle :=
  match h, length with
  | some c, some length => reply length (c.read d archive group file key)
  | h, length => (⟨none, length⟩, h)

def readNamed (d : Directory) (h : Handle) (archive : UInt8) (name : Option Bytes) (file : UInt16)
    (key : Option Xtea.Key) (length : Option UInt32) : Reply × Handle :=
  match h, length, pointedText name with
  | some c, some length, some name => reply length (c.readNamed d archive name file key)
  | h, length, _ => (⟨none, length⟩, h)

def close (_ : Handle) : Handle := none

end Handle

end Js5
