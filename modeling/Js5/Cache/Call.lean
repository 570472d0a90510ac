import Js5.Cache

/-! # Calls of a cache, and their answers, as values -/

namespace Js5

inductive Call where
  | read (archive : UInt8) (group : UInt32) (file : UInt16) (key : Option Xtea.Key)
  | readNamed (archive : UInt8) (name : String) (file : UInt16) (key : Option Xtea.Key)
  | readGroup (archive : UInt8) (group : UInt32) (key : Option Xtea.Key)
  | list (archive : UInt8)
  | close
  | isClosed
  | options
  deriving DecidableEq

def Call.archive? : Call → Option UInt8
  | .read archive .. | .readNamed archive .. | .readGroup archive .. | .list archive => some archive
  | .close | .isClosed | .options => none

inductive Answer where
  | bytes (b : Except CacheError Bytes)
  | files (files : Except CacheError (List (UInt32 × Bytes)))
  | groups (groups : Except CacheError (List UInt32))
  | done (d : Except CacheError Unit)
  | flag (b : Bool)
  | options (o : Options)

def Answer.IsRefusal : Answer → Prop
  | .bytes b => b = .error .closed
  | .files f => f = .error .closed
  | .groups g => g = .error .closed
  | .done d => d = .error .closed
  | .flag _ | .options _ => False

def Answer.IsRead : Answer → Prop
  | .bytes (.ok _) | .files (.ok _) => True
  | _ => False

namespace Cache

variable {W S : Type} [Store W S]

def ask (w : W) (c : Cache S) : Call → Answer × Cache S
  | .read archive group file key => (c.read w archive group file key).map .bytes id
  | .readNamed archive name file key => (c.readNamed w archive name file key).map .bytes id
  | .readGroup archive group key => (c.readGroup w archive group key).map .files id
  | .list archive => (c.list w archive).map .groups id
  | .close => c.close.map .done id
  | .isClosed => (.flag c.isClosed, c)
  | .options => (.options c.options, c)

def after (w : W) (c : Cache S) (calls : List Call) : Cache S :=
  calls.foldl (fun c call => (c.ask w call).2) c

/-- What calls leave behind when each of them comes with the world as it is by then. -/
def through (c : Cache S) (calls : List (W × Call)) : Cache S :=
  calls.foldl (fun c p => (c.ask p.1 p.2).2) c

end Cache

end Js5
