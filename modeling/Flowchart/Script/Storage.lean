/-
  Flowchart.Script.Storage

  Keeping compiled scripts in files.
-/

import Flowchart.Files
import Flowchart.Script.Artifact

namespace Flowchart

/-- Why a script cannot be kept or fetched. -/
inductive StorageError where
  | unreadable (path : String) (fault : FileFault)
  | unwritable (path : String) (fault : FileFault)
  | undecodable (fault : Artifact.Fault)
deriving DecidableEq, Repr

namespace StorageError

/-- The short name under which the error is filed. -/
def code : StorageError → String
  | _ => "Artifact"

/-- The sentence that tells the user why. -/
def message : StorageError → String
  | .unreadable path fault => "Could not read '" ++ path ++ "': " ++ fault.message
  | .unwritable path fault => "Could not write '" ++ path ++ "': " ++ fault.message
  | .undecodable fault => "Could not decode script: " ++ fault.message

end StorageError

/-- What comes of asking for a script that was kept. -/
inductive Fetched where
  | script (script : Script)
  | refused (error : StorageError)
  /-- There is no answer: the program stops. -/
  | breakdown
deriving DecidableEq, Repr

namespace Script

/-- Decodes the bytes of a script. -/
def decode (bytes : List UInt8) : Fetched :=
  match ofBytes bytes with
  | .ok script => .script script
  | .error (.fault fault) => .refused (.undecodable fault)
  | .error .breakdown => .breakdown

/-- Keeps a script in a file. -/
def save (s : Script) (tree : FileTree) (path : String) : Except StorageError FileTree :=
  (tree.write path s.toBytes).mapError (.unwritable path)

/-- Fetches a script from a file. -/
def load (tree : FileTree) (path : String) : Fetched :=
  match tree.read path with
  | .error fault => .refused (.unreadable path fault)
  | .ok bytes => decode bytes

end Script

end Flowchart
