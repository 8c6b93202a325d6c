import HostBridge.Dump.Report

/-!
# Command line arguments

The program has one command, `dump FILE`, with options for the stage to stop at and for a file of
options. Arguments are read from left to right, and the first one that decides the matter wins: a
request for help, or a mistake. Options may stand before or after the file. What follows `--` is
never an option.
-/

namespace HostBridge

/-- What a dump is asked for. -/
structure DumpRequest where
  recording : String
  options : Option String := none
  stage : Stage := .generate
deriving DecidableEq, Repr, Inhabited

/-- What the program is asked for. -/
inductive Request where
  | help
  | usageError
  | dump (request : DumpRequest)
deriving DecidableEq, Repr, Inhabited

/-! ### Forms of arguments -/

/-- An argument by its form. -/
inductive ArgumentForm where
  /-- The two dashes after which there are no more options. -/
  | endOfOptions
  | long (name : String) (value : Option String)
  | letters (letters : List Char)
  | word (text : String)
deriving DecidableEq, Repr, Inhabited

/-- The form of an argument. A single dash is a word. -/
def ArgumentForm.ofText (argument : String) : ArgumentForm :=
  match argument.toList with
  | ['-', '-'] => .endOfOptions
  | '-' :: '-' :: cs =>
    match cs.dropWhile (· != '=') with
    | [] => .long (String.ofList cs) none
    | _ :: value => .long (String.ofList (cs.takeWhile (· != '='))) (some (String.ofList value))
  | '-' :: c :: cs => .letters (c :: cs)
  | _ => .word argument

/-- Reads options of one letter each. The answer tells whether verbose output is asked for, which
may be done once; or it is the request that decides the matter. -/
def readLetters (verbose : Bool) : List Char → Except Request Bool
  | [] => .ok verbose
  | 'v' :: cs => if verbose then .error .usageError else readLetters true cs
  | 'h' :: _ => .error .help
  | _ :: _ => .error .usageError

/-! ### The arguments of a dump -/

/-- The arguments of a dump as far as they have been read. -/
structure PartialRequest where
  verbose : Bool := false
  recording : Option String := none
  options : Option String := none
  stage : Option Stage := none
deriving DecidableEq, Repr, Inhabited

namespace PartialRequest

/-- Takes the path of the recording, which may not be empty and is given once. -/
def takeRecording (p : PartialRequest) (path : String) : Option PartialRequest :=
  if path.isEmpty || p.recording.isSome then none else some { p with recording := some path }

/-- Takes the value of an option of that name, which is given once. -/
def takeValue (p : PartialRequest) (name value : String) : Option PartialRequest :=
  if name = "options" then
    if value.isEmpty || p.options.isSome then none else some { p with options := some value }
  else if name = "stage" then
    match Stage.ofName? value with
    | some stage => if p.stage.isSome then none else some { p with stage := some stage }
    | none => none
  else none

/-- The request once all arguments have been read. -/
def finish (p : PartialRequest) : Request :=
  match p.recording with
  | some recording =>
    .dump { recording, options := p.options, stage := p.stage.getD .generate }
  | none => .usageError

/-- Reads the arguments after `--`, which are words. -/
def readWords (p : PartialRequest) : List String → Request
  | [] => p.finish
  | a :: as =>
    match p.takeRecording a with
    | some p => p.readWords as
    | none => .usageError

/-- Reads the arguments of a dump. -/
def read (p : PartialRequest) : List String → Request
  | [] => p.finish
  | a :: as =>
    match ArgumentForm.ofText a with
    | .endOfOptions => p.readWords as
    | .word path =>
      match p.takeRecording path with
      | some p => p.read as
      | none => .usageError
    | .letters cs =>
      match readLetters p.verbose cs with
      | .ok verbose => read { p with verbose } as
      | .error request => request
    | .long "help" none => .help
    | .long "verbose" none =>
      if p.verbose then .usageError else read { p with verbose := true } as
    | .long name (some value) =>
      match p.takeValue name value with
      | some p => p.read as
      | none => .usageError
    | .long name none =>
      match as with
      | [] => .usageError
      | value :: as =>
        -- the value follows in an argument of its own, which must not look like an option
        match ArgumentForm.ofText value, p.takeValue name value with
        | .word _, some p => p.read as
        | _, _ => .usageError

end PartialRequest

/-! ### The arguments of the program -/

/-- Reads the arguments after the command `help`, which may be the name of a command. -/
def readHelp : List String → Request
  | [] | ["dump"] | ["help"] => .help
  | _ => .usageError

/-- Reads the arguments before the command. -/
def Request.read (verbose : Bool) : List String → Request
  | [] => .usageError
  | a :: as =>
    match ArgumentForm.ofText a with
    | .word "dump" => ({} : PartialRequest).read as
    | .word "help" => readHelp as
    | .letters cs =>
      match readLetters verbose cs with
      | .ok verbose => read verbose as
      | .error request => request
    | .long "help" none => .help
    | .long "verbose" none => if verbose then .usageError else read true as
    | _ => .usageError

/-- What some arguments ask for. -/
def Request.ofArguments (arguments : List String) : Request := read false arguments

end HostBridge
