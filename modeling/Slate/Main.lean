import Slate.CommandLine

/-! # The program

Reads the file named on the command line, runs it, and writes what the session says.
-/

namespace Slate.Program
set_option autoImplicit false

def status (path : String) : IO CommandLine.FileStatus := do
  match ← (do (← IO.FS.realPath path).metadata).toBaseIO with
  | .error _ => return .missing
  | .ok metadata =>
    if metadata.type != .file then return .notAFile
    match ← (IO.FS.readBinFile path).toBaseIO with
    | .ok contents => return .file contents
    | .error _ => return .unreadable

def write (color : Bool) (emissions : List Emission) : IO Unit :=
  emissions.forM fun emission => do
    let stream ← match emission.channel with
      | .output => IO.getStdout
      | .error => IO.getStderr
    stream.putStr (emission.text.render color)
    stream.flush

def flush (sink : Sink) : IO Unit := write false [Session.toOutput [.plain sink.written]]

/-- Steps between two writes of program output. -/
def stride : Nat := 100000

partial def drive (settings : Settings) (compiled : Compiled) :
    Progress Sink → IO (Except Stop (Option Word))
  | .halted result sink => do
    flush sink
    return result
  | .running frame callers sink => do
    flush sink
    drive settings compiled (Machine.advance standardHost compiled.module settings.maxCallDepth
      stride (.running frame callers {}))

def run (color : Bool) (settings : Settings) (source : Source) : IO UInt32 := do
  let (emissions, verdict) := Session.begin settings source
  write color emissions
  match verdict with
  | .error error =>
    write color (Session.failure error)
    return 1
  | .ok compiled =>
    match ← drive settings compiled (Session.run settings compiled stride {}) with
    | .ok _ =>
      write color (Session.finish settings source compiled)
      return 0
    | .error (.error error) =>
      write color (Session.failure (.execution error))
      return 1
    | .error .fault => return 101

def usage (color : Bool) (error : UsageError) : IO UInt32 := do
  write color (CommandLine.report color error)
  return 2

def wantsColor : IO Bool := do
  return CommandLine.wantsColor (← IO.getEnv "CLICOLOR_FORCE") (← IO.getEnv "NO_COLOR")
    (← IO.getEnv "CLICOLOR") (← (← IO.getStdout).isTty)

def start (arguments : List String) : IO UInt32 := do
  let color ← wantsColor
  match CommandLine.read arguments with
  | .error error => usage color error
  | .ok .version =>
    IO.println CommandLine.version
    return 0
  | .ok .help =>
    IO.print CommandLine.helpText
    return 0
  | .ok (.run request) =>
    match CommandLine.load request.path (← status request.path) with
    | .error error => usage color error
    | .ok (.error error) =>
      write color (Session.failure error)
      return 1
    | .ok (.ok source) => run color request.settings source

end Slate.Program

def main (arguments : List String) : IO UInt32 := Slate.Program.start arguments
