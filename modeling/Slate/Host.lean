import Slate.Ir

/-! # Hosts

A host answers calls to functions that a module only declares. The standard host knows `_puts`, which
writes its arguments to a sink.
-/

namespace Slate
set_option autoImplicit false

inductive ExecutionError where
  | unknownFunction (name : String)
  | unresolvedExternal (name : String)
  | argumentCountMismatch (name : String) (expected found : Nat)
  | callDepthExceeded (limit : Nat)
  | undefinedRegister (function : String) (register : RegisterId)
  | missingPhiSource (function : String)
  | output
  deriving DecidableEq

def ExecutionError.message : ExecutionError → String
  | .unknownFunction name => s!"function `{name}` does not exist"
  | .unresolvedExternal name => s!"function `{name}` has no definition"
  | .argumentCountMismatch name expected found =>
    s!"function `{name}` expects {expected} argument(s) but was given {found}"
  | .callDepthExceeded limit => s!"call depth exceeded the limit of {limit}"
  | .undefinedRegister function register =>
    s!"register {register.text} of `{function}` was read before being written"
  | .missingPhiSource function => s!"no phi source in `{function}` for the incoming edge"
  | .output => "failed to write program output"

/-- Answers calls by symbol, with a state of its own. -/
structure Host (σ : Type) where
  call : (symbol : String) → (arguments : List Word) → σ →
    Except ExecutionError (Option Word) × σ

structure Sink where
  written : String := ""
  capacity : Option Nat := none

/-- Writes the characters that fit; `false` if some did not. Each of them takes one byte. -/
def Sink.write (sink : Sink) (text : String) : Bool × Sink :=
  match sink.capacity with
  | none => (true, { sink with written := sink.written ++ text })
  | some room =>
    let taken := String.ofList (text.toList.take room)
    (decide (text.length ≤ room),
      { written := sink.written ++ taken, capacity := some (room - text.length) })

def putsLine (values : List Word) : String := " ".intercalate (values.map Word.text) ++ "\n"

/-- How an output takes a text: `false` if it did not take all of it. -/
abbrev Writer (σ : Type) := σ → String → Bool × σ

/-- The host function `_puts(count, …)`, which writes `count` words. -/
def puts {σ : Type} (write : Writer σ) (arguments : List Word) (output : σ) :
    Except ExecutionError (Option Word) × σ :=
  match arguments with
  | [] => (.error (.argumentCountMismatch "_puts" 1 0), output)
  | count :: values =>
    if count.toInt = values.length then
      let (complete, after) := write output (putsLine values)
      (if complete then .ok none else .error .output, after)
    else
      (.error (.argumentCountMismatch "_puts" (count.toInt.toNat + 1) arguments.length), output)

def hostOver {σ : Type} (write : Writer σ) : Host σ where
  call symbol arguments output :=
    if symbol = "_puts" then puts write arguments output
    else (.error (.unresolvedExternal symbol), output)

def standardHost : Host Sink := hostOver Sink.write

structure HostFunction where
  name : String
  symbol : String
  signature : Signature
  deriving DecidableEq

def hostFunctions : List HostFunction :=
  [{ name := "puts", symbol := "_puts",
     signature := { parameters := [.i32], result := .void, variadic := true } }]

end Slate
