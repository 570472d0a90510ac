import Js5.Store.IndexFiles

/-! # Requests to index files, and their replies, as values -/

namespace Js5.IndexFiles

inductive Request where
  | hasArchive (archive : UInt8)
  | load (archive : UInt8)
  | lookup (archive : UInt8) (group : UInt32)
  | list (archive : UInt8)
  deriving DecidableEq

inductive Reply where
  | flag (b : Bool)
  | file (f : Except StoreError IndexFile)
  | record (r : Except StoreError IndexRecord)
  | groups (groups : Except StoreError (List UInt32))

namespace Request

def archive : Request → UInt8
  | .hasArchive archive | .load archive | .lookup archive _ | .list archive => archive

def wantsContent : Request → Bool
  | .hasArchive _ => false
  | .load _ | .lookup .. | .list _ => true

end Request

def ask (d : Directory) (s : IndexFiles) : Request → Reply × IndexFiles
  | .hasArchive archive => (.flag (s.hasArchive d archive), s)
  | .load archive => (s.load d archive).map .file id
  | .lookup archive group => (s.lookup d archive group).map .record id
  | .list archive => (s.list d archive).map .groups id

/-- What requests leave behind. Each comes with the directory as it is by then, so that between any two of
them files may have been written and removed. -/
def through (s : IndexFiles) (requests : List (Directory × Request)) : IndexFiles :=
  requests.foldl (fun s p => (s.ask p.1 p.2).2) s

end Js5.IndexFiles
