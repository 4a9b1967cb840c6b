import Slate.Session
import Slate.Text.Control

/-! # The command line

One source file and a few options. Options may come before or behind the file; `--` makes all that
follows it a file name. The value of an option counts only once the next flag or file name shows that
it is complete, so of two mistakes the one in front may be reported second.
-/

namespace Slate
set_option autoImplicit false

structure Arguments where
  path : String
  settings : Settings

inductive Request where
  | run (arguments : Arguments)
  | version
  | help

inductive NumberFault where
  | empty | badDigit | tooLarge
  deriving DecidableEq

def NumberFault.message : NumberFault → String
  | .empty => "cannot parse integer from empty string"
  | .badDigit => "invalid digit found in string"
  | .tooLarge => "number too large to fit in target type"

inductive UsageError where
  | missingArgument
  | unexpectedArgument (argument : String)
  | unexpectedValue (value option : String)
  | valueRequired (option : String)
  | invalidValue (value option : String) (fault : NumberFault)
  | repeated (option : String)
  | missingFile (path : String)
  | notAFile (path : String)
  deriving DecidableEq

namespace CommandLine

def program : String := "rubiee"

def version : String := s!"{program} 0.1.0"

def helpText : String := "\n".intercalate [
  "Rubiee Language JIT-style Compiler",
  "",
  s!"Usage: {program} [OPTIONS] <SOURCE_FILE>",
  "",
  "Arguments:",
  "  <SOURCE_FILE>  ",
  "",
  "Options:",
  "  -v, --verbose...                       Increase logging (-v phases, -vv debug, -vvv trace)",
  "  -q, --quiet                            Suppress logging and diagnostics",
  "      --dump-ast                         Print the parsed syntax tree",
  "      --dump-ir                          Print the generated IR before running it",
  "      --max-call-depth <MAX_CALL_DEPTH>  Maximum depth of nested calls in the running program " ++
    "[default: 1024]",
  "  -h, --help                             Print help",
  "  -V, --version                          Print version",
  ""]

def fileOption : String := "<SOURCE_FILE>"
def verboseOption : String := "--verbose..."
def quietOption : String := "--quiet"
def dumpTreeOption : String := "--dump-ast"
def dumpIrOption : String := "--dump-ir"
def depthOption : String := "--max-call-depth <MAX_CALL_DEPTH>"

/-- A value that waits for the next flag or file name. -/
inductive Pending where
  | file (path : String)
  | depth (value : Option String)

structure Parsing where
  path : Option String := none
  verbosity : Nat := 0
  quiet : Bool := false
  dumpTree : Bool := false
  dumpIr : Bool := false
  depth : Option Nat := none
  pending : Option Pending := none
  hasFile : Bool := false

abbrev Parse := Except UsageError

def readDigits (value : Nat) : List Char → Except NumberFault Nat
  | [] => .ok value
  | c :: rest =>
    if !isDigit c then .error .badDigit
    else
      let next := 10 * value + (c.toNat - '0'.toNat)
      if next < 18446744073709551616 then readDigits next rest else .error .tooLarge

/-- Reads an unsigned number of 64 bits, perhaps behind a plus sign. -/
def readNumber : List Char → Except NumberFault Nat
  | [] => .error .empty
  | '+' :: c :: rest => readDigits 0 (c :: rest)
  | digits => readDigits 0 digits

def readDepth (value : String) : Parse Nat :=
  (readNumber value.toList).mapError (.invalidValue value depthOption)

def setDepth (parsing : Parsing) (value : String) : Parse Parsing := do
  if parsing.depth.isSome then throw (.repeated depthOption)
  return { parsing with depth := some (← readDepth value) }

def resolve (parsing : Parsing) : Parse Parsing :=
  let cleared := { parsing with pending := none }
  match parsing.pending with
  | none => .ok parsing
  | some (.file path) =>
    if path.isEmpty then .error (.valueRequired fileOption)
    else .ok { cleared with path := some path }
  | some (.depth none) => .error (.valueRequired depthOption)
  | some (.depth (some value)) => setDepth cleared value

inductive Flag where
  | verbose | quiet | dumpTree | dumpIr | version | help

def Flag.option : Flag → String
  | .verbose => verboseOption
  | .quiet => quietOption
  | .dumpTree => dumpTreeOption
  | .dumpIr => dumpIrOption
  | .version => "--version"
  | .help => "--help"

def longFlag? : String → Option Flag
  | "verbose" => some .verbose
  | "quiet" => some .quiet
  | "dump-ast" => some .dumpTree
  | "dump-ir" => some .dumpIr
  | "version" => some .version
  | "help" => some .help
  | _ => none

def shortFlag? : Char → Option Flag
  | 'v' => some .verbose
  | 'q' => some .quiet
  | 'V' => some .version
  | 'h' => some .help
  | _ => none

def once (flag : Flag) (given : Bool) (parsing : Parsing) : Parse Parsing :=
  if given then .error (.repeated flag.option) else .ok parsing

abbrev Outcome := Parse (Parsing ⊕ Request)

def applyFlag (parsing : Parsing) (flag : Flag) : Outcome := do
  let state ← resolve parsing
  match flag with
  | .verbose => return .inl { state with verbosity := min 255 (state.verbosity + 1) }
  | .quiet => return .inl (← once flag state.quiet { state with quiet := true })
  | .dumpTree => return .inl (← once flag state.dumpTree { state with dumpTree := true })
  | .dumpIr => return .inl (← once flag state.dumpIr { state with dumpIr := true })
  | .version => return .inr .version
  | .help => return .inr .help

def shortFlags (parsing : Parsing) : List Char → Outcome
  | [] => .ok (.inl parsing)
  | c :: rest => do
    match shortFlag? c with
    | none => throw (.unexpectedArgument s!"-{c}")
    | some flag =>
      match ← applyFlag parsing flag with
      | .inl state => shortFlags state rest
      | .inr request => return .inr request

def longOption (parsing : Parsing) (name : String) (value : Option String) : Outcome := do
  if name = "max-call-depth" then
    let state ← resolve parsing
    match value with
    | some attached => return .inl (← setDepth state attached)
    | none => return .inl { state with pending := some (.depth none) }
  else match longFlag? name, value with
  | none, _ => throw (.unexpectedArgument s!"--{name}")
  | some flag, some attached => throw (.unexpectedValue attached flag.option)
  | some flag, none => applyFlag parsing flag

def fileName (parsing : Parsing) (argument : String) : Outcome := do
  if parsing.hasFile then throw (.unexpectedArgument argument)
  let state ← resolve parsing
  return .inl { state with pending := some (.file argument), hasFile := true }

def awaitsValue (parsing : Parsing) : Bool :=
  match parsing.pending with
  | some (.depth none) => true
  | _ => false

def argument (parsing : Parsing) (text : String) : Outcome :=
  match text.toList with
  | '-' :: '-' :: rest =>
    let name := rest.takeWhile (· != '=')
    let value := (rest.dropWhile (· != '=')).tail?.map String.ofList
    longOption parsing (String.ofList name) value
  | '-' :: c :: rest => shortFlags parsing (c :: rest)
  | _ =>
    if awaitsValue parsing then .ok (.inl { parsing with pending := some (.depth (some text)) })
    else fileName parsing text

def complete (parsing : Parsing) : Parse Request := do
  let state ← resolve parsing
  match state.path with
  | none => throw .missingArgument
  | some path =>
    return .run {
      path
      settings := {
        verbosity := state.verbosity
        quiet := state.quiet
        dumpTree := state.dumpTree
        dumpIr := state.dumpIr
        maxCallDepth := state.depth.getD 1024 } }

/-- Reads the arguments behind `--`, all of which are file names. -/
def readFiles (parsing : Parsing) : List String → Parse Request
  | [] => complete parsing
  | first :: rest => do
    match ← fileName parsing first with
    | .inl state => readFiles state rest
    | .inr request => return request

def readAll (parsing : Parsing) : List String → Parse Request
  | [] => complete parsing
  | "--" :: rest => readFiles parsing rest
  | first :: rest => do
    match ← argument parsing first with
    | .inl state => readAll state rest
    | .inr request => return request

def read (arguments : List String) : Parse Request := readAll {} arguments

def stress (style : Style) (text : String) : Piece := ⟨text, some { style with split := true }⟩

def wrong (text : String) : Piece := stress { color := some .yellow } text

def literal (text : String) : Piece := stress { bold := true } text

def complaint : UsageError → Styled
  | .missingArgument => [.plain "the following required arguments were not provided:"]
  | .unexpectedArgument argument =>
    [.plain "unexpected argument '", wrong argument, .plain "' found"]
  | .unexpectedValue value option =>
    [.plain "unexpected value '", wrong value, .plain "' for '", literal option,
      .plain "' found; no more were expected"]
  | .valueRequired option =>
    [.plain "a value is required for '", wrong option, .plain "' but none was supplied"]
  | .invalidValue value option fault =>
    [.plain "invalid value '", wrong value, .plain "' for '", literal option,
      .plain s!"': {fault.message}"]
  | .repeated option =>
    [.plain "the argument '", wrong option, .plain "' cannot be used multiple times"]
  | .missingFile path => [.plain s!"Source file '{path}' does not exist!"]
  | .notAFile path => [.plain s!"Input path '{path}' is not a file!"]

def advice (error : UsageError) : Styled :=
  (if error = .missingArgument then [.plain s!"  {fileOption}\n"] else []) ++
    [.plain "\n", stress { bold := true, underline := true } "Usage:", .plain " ",
      literal program, .plain s!" [OPTIONS] {fileOption}\n\nFor more information, try '",
      literal "--help", .plain "'.\n"]

/-- The text of a usage error. Without colours, it is also without the control sequences that
arguments may hold. -/
def usageText (color : Bool) (error : UsageError) : String :=
  let text := Styled.ansi ([stress { bold := true, color := some .red } "error:", .plain " "] ++
    complaint error ++ [.plain "\n"] ++ advice error)
  if color then text else withoutControls text

def report (color : Bool) (error : UsageError) : List Emission :=
  [Session.toError [.plain (usageText color error)]]

/-- Whether texts are coloured. A variable is on unless its value is `0`; forcing wins over
forbidding, and forbidding over the terminal. -/
def wantsColor (force forbid terminalColor : Option String) (terminal : Bool) : Bool :=
  if force.any (· != "0") then true
  else if forbid.isSome then false
  else terminal && terminalColor.all (· != "0")

inductive FileStatus where
  | missing
  | notAFile
  | unreadable
  | file (contents : ByteArray)

def load (path : String) : FileStatus → Except UsageError (Except SessionError Source)
  | .missing => .error (.missingFile path)
  | .notAFile => .error (.notAFile path)
  | .unreadable => .ok (.error (.unreadable path))
  | .file contents => .ok <|
    match String.fromUTF8? contents with
    | some text => .ok { text, origin := .file path }
    | none => .error (.unreadable path)

end CommandLine
end Slate
