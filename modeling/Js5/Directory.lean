import Js5.Bytes

/-! # The files and folders that a cache is read from, as a value -/

namespace Js5

def joinPath (base name : String) : String :=
  if name.toList.head? = some '/' then name
  else if base.toList.getLast?.all (· = '/') then base ++ name
  else base ++ "/" ++ name

/-- The names in a path, which slashes set apart; `name` holds the characters of the first of them so far,
last first. Names may be empty. -/
def splitPath (name : List Char) : List Char → List String
  | [] => [String.ofList name.reverse]
  | c :: path =>
    if c = '/' then String.ofList name.reverse :: splitPath [] path else splitPath (c :: name) path

structure Directory where
  root : String
  /-- What there is below it: the contents of files, nothing for folders. -/
  entries : List (List String × Option Bytes)

namespace Directory

def empty (root : String) : Directory := ⟨root, []⟩

/-- What is found at a path. A path that leads through a file, or that no file system would take, is
refused. -/
inductive Found where
  | file (bytes : Bytes)
  | folder
  | absent
  | refused
  deriving DecidableEq, Repr

def entry (d : Directory) (path : List String) : Found :=
  if path = [] then .folder
  else
    match d.entries.lookup path with
    | some (some bytes) => .file bytes
    | some none => .folder
    | none => .absent

def longestName : Nat := 255

def longestPath : Nat := 4095

/-- What is found by going on from the path `here`. What lies above the folder itself is not known. -/
def walk (d : Directory) (here : List String) : (names : List String) → Found
  | [] => d.entry here
  | name :: names =>
    match d.entry here with
    | .folder =>
      if name = "" || name = "." then d.walk here names
      else if name = ".." then
        if here = [] then .absent else d.walk here.dropLast names
      else if longestName < name.utf8ByteSize then .refused
      else d.walk (here ++ [name]) names
    | .file _ => .refused
    | other => other

def find (d : Directory) (path : String) : Found :=
  if longestPath < path.utf8ByteSize || '\x00' ∈ path.toList then .refused
  else if d.root.toList.isPrefixOf path.toList then
    match path.toList.drop d.root.toList.length with
    | [] => .folder
    | '/' :: rest => d.walk [] (splitPath [] rest)
    | _ => .absent
  else .absent

def isFile (d : Directory) (path : String) : Bool :=
  match d.find path with
  | .file _ => true
  | _ => false

def isFolder (d : Directory) (path : String) : Bool := d.find path = .folder

def names (path : String) : List String :=
  (splitPath [] path.toList).filter fun name => name ≠ "" && name ≠ "."

def remove (d : Directory) (path : String) : Directory :=
  { d with entries := d.entries.filter fun e => !(names path).isPrefixOf e.1 }

/-- Puts a file, or an empty folder, in place of what there is, and makes the folders it is in. -/
def write (d : Directory) (path : String) (content : Option Bytes) : Directory :=
  let d := d.remove path
  let above := (List.range (names path).length).map fun n => (names path).take n
  let missing := above.filter fun p => d.entry p = .absent
  { d with entries := (names path, content) :: missing.map (·, none) ++ d.entries }

end Directory

end Js5
