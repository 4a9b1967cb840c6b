import Slate.Ir.Render
import Slate.Ir.Verify
import Slate.Lowering
import Slate.Machine
import Slate.Settings
import Slate.Tree.Outline
import Slate.Tree.Parser

/-! # Sessions

A session takes a source through parsing, lowering, verification and execution, and says what is
written on the way: dumps and program output to one channel, everything else to the other. The
machine itself is left to the caller, between `begin` and `finish`, since it may run forever.
-/

namespace Slate
set_option autoImplicit false

inductive Channel where
  | output | error
  deriving DecidableEq

structure Emission where
  channel : Channel
  text : Styled

def channelText (channel : Channel) (color : Bool) (emissions : List Emission) : String :=
  String.join ((emissions.filter fun e => e.channel = channel).map fun e => e.text.render color)

inductive SessionError where
  | unreadable (path : String)
  | parse (location : String) (error : ParseError)
  | refused (module : Module) (errors : List VerifyError)
  | execution (error : ExecutionError)

def SessionError.message : SessionError → String
  | .unreadable path => s!"failed to read `{path}`"
  | .parse location error => s!"{location}: {error.message}"
  | .refused module errors => module.refusal errors
  | .execution error => error.message

structure Compiled where
  module : Module
  events : List Event

def Compiled.diagnostics (compiled : Compiled) : List Diagnostic :=
  compiled.events.filterMap Event.diagnostic?

namespace Session

def toError (text : Styled) : Emission := ⟨.error, text⟩

def toOutput (text : Styled) : Emission := ⟨.output, text⟩

def arrow : Piece := ⟨"-->", some { bold := true, color := some .brightGreen }⟩

/-- Emissions that are made only if a switch is on. -/
@[macro_inline]
def whenever (switch : Bool) (emissions : List Emission) : List Emission :=
  if switch then emissions else []

def phase (settings : Settings) (text : String) : List Emission :=
  whenever settings.logsPhases [toError [.plain "    ", arrow, .plain s!" {text}\n"]]

def debug (settings : Settings) (text : String) : List Emission :=
  whenever settings.logsDebug [toError [.plain s!"debug: {text}\n"]]

def trace (settings : Settings) (text : String) : List Emission :=
  whenever settings.logsTrace [toError [.plain s!"trace: {text}\n"]]

/-- How logs write a value: `Some(Immediate(Int(1)))`, `Some(Register(RegisterId(3)))` or `None`. -/
def valueText : Option Operand → String
  | none => "None"
  | some (.const (.int value)) => s!"Some(Immediate(Int({value.text})))"
  | some (.const (.bool value)) =>
    let text := (Value.bool value).text
    s!"Some(Immediate(Bool({text})))"
  | some (.register id) => s!"Some(Register(RegisterId({id.index})))"

def event (settings : Settings) (source : Source) : Event → List Emission
  | .diagnostic problem =>
    whenever (!settings.quiet) [toError ((problem.report? source).getD [])]
  | .declared name arity => debug settings s!"declared function `{name}` with {arity} parameter(s)"
  | .lowered name => debug settings s!"lowered function `{name}`"
  | .produced value =>
    let text := valueText value
    trace settings s!"top level expression produced {text}"

def parse (settings : Settings) (source : Source) :
    List Emission × Except SessionError (List Item) :=
  match source.parse with
  | .ok program => ([], .ok program)
  | .error error =>
    let highlight := (source.highlight? error.span).getD []
    (whenever (!settings.quiet) [toError (highlight ++ [.plain "\n"])],
      .error (.parse ((source.location? error.span).getD "") error))

def compile (source : Source) (program : List Item) : Compiled :=
  let (module, events) := lowerProgram source.origin.text program
  { module, events }

def verify (settings : Settings) (module : Module) : List Emission × Except SessionError Unit :=
  match module.verify with
  | [] => ([], .ok ())
  | errors =>
    let line := fun (error : VerifyError) =>
      toError [.colored .red "verify", .plain s!": {error.message}\n"]
    (whenever (!settings.quiet) (errors.map line), .error (.refused module errors))

def treeDump (source : Source) (program : List Item) : Emission :=
  toOutput [.plain ((Outline.program source program).render ++ "\n")]

def irDump (module : Module) : Emission := toOutput (module.render?.getD [])

/-- Everything up to the first instruction. -/
def begin (settings : Settings) (source : Source) :
    List Emission × Except SessionError Compiled :=
  let opening := phase settings s!"Parsing {source.origin.text}"
  match parse settings source with
  | (emissions, .error error) => (opening ++ emissions, .error error)
  | (_, .ok program) =>
    let compiled := compile source program
    let (refusals, verdict) := verify settings compiled.module
    let before := opening ++
      whenever settings.dumpTree [treeDump source program] ++
      phase settings s!"Lowering {program.length} item(s)" ++
      compiled.events.flatMap (event settings source) ++
      whenever settings.dumpIr [irDump compiled.module] ++
      phase settings "Verifying and compiling" ++ refusals
    match verdict with
    | .error error => (before, .error error)
    | .ok () =>
      (before ++ debug settings s!"compiled {compiled.module.functions.size} function(s)" ++
        phase settings s!"Running `{entryName}`", .ok compiled)

def run (settings : Settings) (compiled : Compiled) (fuel : Nat) (sink : Sink) : Progress Sink :=
  Machine.call standardHost compiled.module settings.maxCallDepth fuel entryName [] sink

def finish (settings : Settings) (source : Source) (compiled : Compiled) : List Emission :=
  let count := compiled.diagnostics.length
  whenever settings.logsPhases
    [toError [arrow, .plain s!" Finished {source.origin.text} with {count} diagnostic(s)\n"]]

def failure (error : SessionError) : List Emission :=
  [toError [.colored .red "error", .plain s!": {error.message}\n"]]

end Session
end Slate
