/-
  Flowchart.Files

  Files by their paths.  A tree of files and folders is a value; reading and
  writing go through it by the rules of paths: a path starts at the root or at
  the working folder, every part of it but the last has to be a folder, `.`
  stays, `..` goes up, and a path that ends with a slash means a folder.
-/

namespace Flowchart

/-! ## Faults -/

/-- Why a file cannot be read or written. -/
inductive FileFault where
  | notFound
  | notFolder
  | isFolder
  | nameTooLong
  /-- No path may hold the character NUL. -/
  | nulInPath
  /-- The bytes of the file are no text. -/
  | notText
  /-- Anything else, in the words of the system. -/
  | other (text : String)
deriving DecidableEq, Repr

/-- The words of the system for a fault. -/
def FileFault.message : FileFault → String
  | .notFound => "No such file or directory (os error 2)"
  | .notFolder => "Not a directory (os error 20)"
  | .isFolder => "Is a directory (os error 21)"
  | .nameTooLong => "File name too long (os error 36)"
  | .nulInPath => "file name contained an unexpected NUL byte"
  | .notText => "stream did not contain valid UTF-8"
  | .other text => text

/-! ## Trees -/

/-- What stands at a place. -/
inductive FileNode where
  | file (bytes : List UInt8)
  | folder
deriving DecidableEq, Repr

/-- The folder from which places are named. -/
inductive Anchor where
  | root
  /-- So many folders above the working folder, which is at level 0. -/
  | above (levels : Nat)
deriving DecidableEq, Repr

/-- A place: the names that lead to it from a folder. -/
structure Location where
  anchor : Anchor := .above 0
  names : List String := []
deriving DecidableEq, Repr

namespace Location

/-- The place of a name in this folder. -/
def child (place : Location) (name : String) : Location :=
  { place with names := place.names ++ [name] }

/-- The folder above this one; the root is its own. -/
def up (place : Location) : Location :=
  if place.names ≠ [] then { place with names := place.names.dropLast }
  else
    match place.anchor with
    | .root => place
    | .above levels => { place with anchor := .above (levels + 1) }

end Location

/-- The files and folders that are known. -/
structure FileTree where
  nodes : List (Location × FileNode) := []
deriving DecidableEq, Repr

namespace FileTree

/-- What stands at a place; the folders that places are named from are always
    there. -/
def node? (tree : FileTree) (place : Location) : Option FileNode :=
  if place.names = [] then some .folder
  else (tree.nodes.find? fun entry => entry.1 = place).map Prod.snd

/-- Puts a node at a place, instead of what stands there. -/
def put (tree : FileTree) (place : Location) (node : FileNode) : FileTree :=
  { tree with nodes := (place, node) :: tree.nodes.filter fun entry => entry.1 ≠ place }

/-! ## Paths -/

/-- The longest name of a file or folder, in bytes. -/
def maxName : Nat := 255

/-- The longest path, in bytes. -/
def maxPath : Nat := 4095

/-- The parts of a path between its slashes. -/
def parts (path : String) : List String :=
  ((path.toList.splitOn '/').map String.ofList).filter fun part => part ≠ ""

/-- Where a path starts: at the root if with a slash, else at the working folder. -/
def start (path : String) : Location :=
  if path.toList.head? = some '/' then { anchor := .root } else {}

/-- The path ends with a slash. -/
def meansFolder (path : String) : Bool :=
  path.toList.getLast? = some '/'

/-- The fault that a path has whatever the files are. -/
def pathFault? (path : String) : Option FileFault :=
  if '\x00' ∈ path.toList then some .nulInPath
  else if path = "" then some .notFound
  else if maxPath < path.utf8ByteSize then some .nameTooLong
  else none

/-- The place that a part of a path means in a folder. -/
def resolve (here : Location) (part : String) : Except FileFault Location :=
  if part = "." then .ok here
  else if part = ".." then .ok here.up
  else if maxName < part.utf8ByteSize then .error .nameTooLong
  else .ok (here.child part)

/-- The folder that the parts of a path lead to from another. -/
def follow (tree : FileTree) (here : Location) : List String → Except FileFault Location
  | [] => .ok here
  | part :: rest =>
      match resolve here part with
      | .error fault => .error fault
      | .ok place =>
          match tree.node? place with
          | none => .error .notFound
          | some (.file _) => .error .notFolder
          | some .folder => tree.follow place rest

/-- The folder in which the last part of a path is looked up, and that part. -/
def parent (tree : FileTree) (path : String) : Except FileFault (Location × String) :=
  match pathFault? path with
  | some fault => .error fault
  | none =>
      match tree.follow (start path) (parts path).dropLast with
      | .error fault => .error fault
      | .ok here => .ok (here, (parts path).getLastD ".")

/-! ## Reading and writing -/

/-- The bytes of a file. -/
def read (tree : FileTree) (path : String) : Except FileFault (List UInt8) := do
  let (here, part) ← tree.parent path
  let place ← resolve here part
  match tree.node? place with
  | none => .error .notFound
  | some .folder => .error .isFolder
  | some (.file bytes) => if meansFolder path then .error .notFolder else .ok bytes

/-- The tree with these bytes in a file, which is made if it is not there.  A path
    that means a folder is refused before its last part is looked up. -/
def write (tree : FileTree) (path : String) (bytes : List UInt8) :
    Except FileFault FileTree := do
  let (here, part) ← tree.parent path
  if meansFolder path then .error .isFolder
  else
    let place ← resolve here part
    match tree.node? place with
    | some .folder => .error .isFolder
    | _ => .ok (tree.put place (.file bytes))

end FileTree

end Flowchart
