/-
  Flowchart.Main

  The command line.  Files are read and written here; everything else is asked
  of `Flowchart.Command`.
-/

import Flowchart.Command.Run

namespace Flowchart.Command

/-- The system's words for an error, with its number. -/
def systemText (details : String) (code : UInt32) : String :=
  details ++ " (os error " ++ Nat.repr code.toNat ++ ")"

/-- The fault that the system's error stands for. -/
def faultOf : IO.Error → FileFault
  | .noFileOrDirectory _ _ _ => .notFound
  | .inappropriateType _ code _ => if code = 20 then .notFolder else .isFolder
  | .interrupted _ _ details => .other details
  | .invalidArgument _ code details =>
      if code = 36 then .nameTooLong else .other (systemText details code)
  | .permissionDenied _ code details => .other (systemText details code)
  | error => .other error.toString

/-- Does something with files, and gives the fault if it fails. -/
def attempt {α : Type} (action : IO α) : IO (Except FileFault α) :=
  try
    return .ok (← action)
  catch error =>
    return .error (faultOf error)

/-- The bytes of a file. -/
def readBytes (path : String) : IO ByteArray := do
  let handle ← IO.FS.Handle.mk path .read
  handle.readBinToEnd

/-- The fraction of a number of `unit`s below one, without the zeros at its end. -/
def fractionText (part unit : Nat) : String :=
  let digits := ((Nat.repr (unit + part)).toList.drop 1).reverse.dropWhile (· = '0')
  if digits.isEmpty then "" else "." ++ String.ofList digits.reverse

/-- A stretch of time in the largest unit of which there is one. -/
def durationText (nanos : Nat) : String :=
  let inUnit (unit : Nat) (name : String) : String :=
    Nat.repr (nanos / unit) ++ fractionText (nanos % unit) unit ++ name
  if 1000000000 ≤ nanos then inUnit 1000000000 "s"
  else if 1000000 ≤ nanos then inUnit 1000000 "ms"
  else if 1000 ≤ nanos then inUnit 1000 "µs"
  else inUnit 1 "ns"

/-- Writes lines beside the output. -/
def note (lines : List String) : IO Unit :=
  lines.forM IO.eprintln

/-- Writes why the command stops, and gives its exit code. -/
def stop (message : String) : IO UInt32 := do
  note (errorLines message)
  return 1

/-- Keeps a script in a file if asked, and gives whether that went well. -/
def keep (script : Script) : Option String → IO (Except StorageError Unit)
  | none => return .ok ()
  | some path => do
      match ← attempt (IO.FS.writeBinFile path ⟨script.toBytes.toArray⟩) with
      | .error fault => return .error (.unwritable path fault)
      | .ok () =>
          note [savedLine path]
          return .ok ()

/-- Carries out a request. -/
def carryOut (request : Request) : IO UInt32 := do
  let started ← IO.monoNanosNow
  let content ← attempt (readBytes request.path)
  match request.load (content.map fun bytes => bytes.toList) with
  | .error message => stop message
  | .ok diagram =>
      note (reportLines diagram.graph.report)
      let before ← IO.monoNanosNow
      match request.scriptOf diagram with
      | .error message => stop message
      | .ok script =>
          let compiled ← IO.monoNanosNow
          IO.print (request.outputOf script)
          match ← keep script request.artifact with
          | .error error => stop error.message
          | .ok () =>
              let now ← IO.monoNanosNow
              note [compiledLine script.name diagram.graph.elements.length ++ " in "
                ++ durationText (compiled - before) ++ ", total " ++ durationText (now - started)]
              return 0

end Flowchart.Command

open Flowchart Flowchart.Command in
/-- The command. -/
def main (arguments : List String) : IO UInt32 := do
  match Invocation.ofArguments arguments with
  | .run request => carryOut request
  | .version =>
      IO.println versionLine
      return 0
  | .help =>
      IO.println usageLine
      return 0
  | .misuse =>
      note [usageLine]
      return 2
