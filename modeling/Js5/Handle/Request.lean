import Js5.Cache.Call
import Js5.Handle

/-!
# Requests through a handle

Behind an open handle there is a session: a cache, and the calls made of it since it was opened.
-/

namespace Js5.Handle

/-- A read comes with what is in the place for its length, if it is given a place. -/
inductive Request where
  | openAt (path : Option Bytes)
  | read (archive : UInt8) (group : UInt32) (file : UInt16) (key : Option Xtea.Key) (length : Option UInt32)
  | readNamed (archive : UInt8) (name : Option Bytes) (file : UInt16) (key : Option Xtea.Key)
    (length : Option UInt32)
  | close
  deriving DecidableEq

inductive Answer where
  | opened (isOpen : Bool)
  | reply (r : Reply)
  | closed
  deriving DecidableEq

def ask (d : Directory) (h : Handle) : Request → Answer × Handle
  | .openAt path => (.opened (openAt d path).isSome, openAt d path)
  | .read archive group file key length => (h.read d archive group file key length).map .reply id
  | .readNamed archive name file key length => (h.readNamed d archive name file key length).map .reply id
  | .close => (.closed, h.close)

def through (h : Handle) (requests : List (Directory × Request)) : Handle :=
  requests.foldl (fun h p => (h.ask p.1 p.2).2) h

def Request.length? : Request → Option (Option UInt32)
  | .read _ _ _ _ length | .readNamed _ _ _ _ length => some length
  | _ => none

structure Session where
  opened : Cache DiskStore
  calls : List (Directory × Call)

def Session.cache (s : Session) : Cache DiskStore := s.opened.through s.calls

/-- The call that a request makes of the cache, if it has the pointers that it needs for one. -/
def Request.call? : Request → Option Call
  | .read archive group file key (some _) => some (.read archive group file key)
  | .readNamed archive name file key (some _) =>
    (pointedText name).map fun name => .readNamed archive name file key
  | _ => none

def Session.after (s : Option Session) (p : Directory × Request) : Option Session :=
  match p.2 with
  | .openAt path =>
    (pointedText path).bind fun path => (Cache.openAt p.1 path {}).toOption.map fun c => ⟨c, []⟩
  | .close => none
  | request => s.map fun s =>
    { s with calls := s.calls ++ (request.call?.map fun call => (p.1, call)).toList }

def session (requests : List (Directory × Request)) : Option Session := requests.foldl Session.after none

end Js5.Handle
