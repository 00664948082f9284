/-
  Flowchart.Command.Arguments

  The arguments of the command line.  There is one path, and options before or
  behind it: `--name value`, `--name=value`, `-n value`, `-nvalue` or
  `-n=value`.  No option is given twice, and after `--` everything is a path.
-/

import Flowchart.Script.Compile

namespace Flowchart.Command

/-- In which form the script is printed. -/
inductive Format where
  /-- The generated text alone. -/
  | source
  /-- The script with all that belongs to it. -/
  | json
deriving DecidableEq, Repr

/-- What the command is asked to do. -/
structure Request where
  path : String
  format : Format := .source
  artifact : Option String := none
  force : Bool := false
  unchecked : Bool := false
  options : CompileOptions := {}
deriving DecidableEq, Repr

/-- What the arguments amount to. -/
inductive Invocation where
  | run (request : Request)
  | version
  | help
  /-- The arguments make no sense. -/
  | misuse
deriving DecidableEq, Repr

/-! ## Options -/

/-- An option that has a value. -/
inductive Setting where
  | format
  | artifact
  | entrySymbol
  | stem
  | maxIterations
deriving DecidableEq, Repr

/-- An option without a value. -/
inductive Switch where
  | force
  | unchecked
  | version
  | help
deriving DecidableEq, Repr

/-- The options by their long names. -/
def longOption? : String → Option (Setting ⊕ Switch)
  | "format" => some (.inl .format)
  | "artifact" => some (.inl .artifact)
  | "entry-symbol" => some (.inl .entrySymbol)
  | "name-prefix" => some (.inl .stem)
  | "max-iterations" => some (.inl .maxIterations)
  | "force" => some (.inr .force)
  | "unchecked" => some (.inr .unchecked)
  | "version" => some (.inr .version)
  | "help" => some (.inr .help)
  | _ => none

/-- The options by their short names. -/
def shortOption? : Char → Option (Setting ⊕ Switch)
  | 'f' => some (.inl .format)
  | 'a' => some (.inl .artifact)
  | 'V' => some (.inr .version)
  | 'h' => some (.inr .help)
  | _ => none

/-- What has been given so far. -/
structure Draft where
  path : Option String := none
  format : Option Format := none
  artifact : Option String := none
  entrySymbol : Option String := none
  stem : Option String := none
  maxIterations : Option UInt32 := none
  force : Bool := false
  unchecked : Bool := false
deriving DecidableEq, Repr

/-- The request, if there is a path. -/
def Draft.invocation (draft : Draft) : Invocation :=
  match draft.path with
  | none => .misuse
  | some path =>
      let defaults : CompileOptions := {}
      .run
        { path
          format := draft.format.getD .source
          artifact := draft.artifact
          force := draft.force
          unchecked := draft.unchecked
          options :=
            { entrySymbol := draft.entrySymbol.getD defaults.entrySymbol
              stem := draft.stem.getD defaults.stem
              maxIterations := draft.maxIterations.getD defaults.maxIterations } }

/-! ## Values -/

/-- The form with this name. -/
def format? : String → Option Format
  | "source" => some .source
  | "json" => some .json
  | _ => none

/-- The number that decimal digits spell; there has to be one. -/
def digits? (digits : List Char) : Option Nat :=
  if digits ≠ [] ∧ digits.all Char.isDigit then
    some (digits.foldl (fun n c => n * 10 + (c.toNat - 48)) 0)
  else none

/-- A number of 32 bits in decimal, with or without a sign. -/
def count? (text : String) : Option UInt32 :=
  match text.toList with
  | '-' :: digits => (digits? digits).bind fun n => if n = 0 then some 0 else none
  | '+' :: digits =>
      (digits? digits).bind fun n => if n < UInt32.size then some (.ofNat n) else none
  | digits => (digits? digits).bind fun n => if n < UInt32.size then some (.ofNat n) else none

/-- A value put in its place, if that is still free. -/
def claim {α : Type} (place : Option α) (value : Option α) : Option (Option α) :=
  match place, value with
  | none, some value => some (some value)
  | _, _ => none

/-- The draft with a setting added, unless it has been given or its value is bad. -/
def Draft.set (draft : Draft) (setting : Setting) (value : String) : Option Draft :=
  match setting with
  | .format => (claim draft.format (format? value)).map fun format => { draft with format }
  | .artifact => (claim draft.artifact (some value)).map fun artifact => { draft with artifact }
  | .entrySymbol =>
      (claim draft.entrySymbol (some value)).map fun entrySymbol => { draft with entrySymbol }
  | .stem => (claim draft.stem (some value)).map fun stem => { draft with stem }
  | .maxIterations =>
      (claim draft.maxIterations (count? value)).map fun maxIterations =>
        { draft with maxIterations }

/-- The draft with a path added, unless it has one. -/
def Draft.setPath (draft : Draft) (path : String) : Option Draft :=
  (claim draft.path (some path)).map fun path => { draft with path }

/-! ## Arguments -/

/-- An argument taken for what it looks like. -/
inductive Argument where
  /-- A path, or the value of the option before it. -/
  | plain (text : String)
  /-- The end of the options. -/
  | endOfOptions
  /-- An option, with the value attached to it. -/
  | setting (setting : Setting) (value : Option String)
  | switch (switch : Switch)
  /-- An option nobody knows, or a value where none belongs. -/
  | unknown
deriving DecidableEq, Repr

/-- A long option, by what follows its two dashes: an equals sign attaches a value. -/
def longArgument (body : List Char) : Argument :=
  let name := String.ofList (body.takeWhile (· ≠ '='))
  let value :=
    match body.dropWhile (· ≠ '=') with
    | [] => none
    | _ :: value => some (String.ofList value)
  match longOption? name, value with
  | some (.inl setting), value => .setting setting value
  | some (.inr switch), none => .switch switch
  | _, _ => .unknown

/-- A short option, by its letter and what follows it.  A value may be attached with
    an equals sign or without; what follows a switch is not looked at, since the
    only short ones end the reading. -/
def shortArgument (letter : Char) (body : List Char) : Argument :=
  match shortOption? letter with
  | some (.inl setting) =>
      match body with
      | [] => .setting setting none
      | '=' :: value => .setting setting (some (String.ofList value))
      | value => .setting setting (some (String.ofList value))
  | some (.inr switch) => .switch switch
  | none => .unknown

/-- What an argument looks like.  A single dash is a plain one. -/
def Argument.ofText (text : String) : Argument :=
  match text.toList with
  | ['-', '-'] => .endOfOptions
  | '-' :: '-' :: body => longArgument body
  | '-' :: letter :: body => shortArgument letter body
  | _ => .plain text

/-- Reads the arguments after the end of the options. -/
def readPaths (draft : Draft) : List String → Invocation
  | [] => draft.invocation
  | path :: rest =>
      match draft.setPath path with
      | none => .misuse
      | some draft => readPaths draft rest

/-- Reads arguments from left to right; the first that makes no sense decides, and so
    does a question for the version or for help.  `pending` is an option that waits
    for its value. -/
def read (draft : Draft) (pending : Option Setting) : List String → Invocation
  | [] => if pending.isSome then .misuse else draft.invocation
  | text :: rest =>
      match pending, Argument.ofText text with
      | some setting, .plain value =>
          match draft.set setting value with
          | none => .misuse
          | some draft => read draft none rest
      | some _, _ => .misuse
      | none, .plain path =>
          match draft.setPath path with
          | none => .misuse
          | some draft => read draft none rest
      | none, .endOfOptions => readPaths draft rest
      | none, .setting setting none => read draft (some setting) rest
      | none, .setting setting (some value) =>
          match draft.set setting value with
          | none => .misuse
          | some draft => read draft none rest
      | none, .switch .version => .version
      | none, .switch .help => .help
      | none, .switch .force =>
          if draft.force then .misuse else read { draft with force := true } none rest
      | none, .switch .unchecked =>
          if draft.unchecked then .misuse else read { draft with unchecked := true } none rest
      | none, .unknown => .misuse

/-- What a list of arguments asks for. -/
def Invocation.ofArguments (arguments : List String) : Invocation :=
  read {} none arguments

end Flowchart.Command
