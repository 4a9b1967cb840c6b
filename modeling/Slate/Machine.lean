import Slate.Host

/-! # The machine

A machine runs a module with an explicit stack of frames. A frame holds the rest of the block it is
in, so the next instruction is always at hand. `step` does one instruction; `advance` does many.

A run ends with a result, with an `ExecutionError`, or with a fault: a register, slot or block that
does not exist, or a block that ends without a terminator. Verified modules have no faults.
-/

namespace Slate
set_option autoImplicit false

structure Frame where
  function : Function
  registers : Table .register (Option Value)
  slots : Table .slot Word
  block : BlockId
  previous : Option BlockId
  rest : List Instruction
  /-- The caller's register for the result. -/
  destination : Option RegisterId

inductive Stop where
  | error (error : ExecutionError)
  | fault

abbrev Step := Except Stop

def orFault {α : Type} : Option α → Step α
  | some a => .ok a
  | none => .error .fault

namespace Frame

def read (frame : Frame) : Operand → Step Value
  | .const value => .ok value
  | .register id =>
    match frame.registers.get? id with
    | none => .error .fault
    | some none => .error (.error (.undefinedRegister frame.function.name id))
    | some (some value) => .ok value

def readWord (frame : Frame) (operand : Operand) : Step Word := do
  return (← frame.read operand).toWord

def write (frame : Frame) (id : RegisterId) (value : Value) : Step Frame :=
  if frame.registers.contains id then
    .ok { frame with registers := frame.registers.set id (some value) }
  else .error .fault

def writeSlot (frame : Frame) (id : SlotId) (word : Word) : Step Frame :=
  if frame.slots.contains id then .ok { frame with slots := frame.slots.set id word }
  else .error .fault

def goto (frame : Frame) (target : BlockId) : Step Frame := do
  let block ← orFault (frame.function.blocks.get? target)
  return { frame with block := target, previous := some frame.block, rest := block.code }

def receive (frame : Frame) : Option RegisterId → Option Value → Step Frame
  | some id, some value => frame.write id value
  | _, _ => .ok frame

/-- A fresh activation, at the start of the first block, with the arguments in the parameter
registers. -/
def enter (function : Function) (arguments : List Word) (destination : Option RegisterId) :
    Step Frame := do
  let block ← orFault (function.blocks.get? ⟨0⟩)
  let frame : Frame := {
    function
    registers := ⟨Array.replicate function.registers.size none⟩
    slots := ⟨Array.replicate function.slots.size 0⟩
    block := ⟨0⟩
    previous := none
    rest := block.code
    destination }
  (function.parameters.zip arguments).foldlM
    (fun frame (id, argument) => frame.write id (.int argument)) frame

end Frame

/-- The frames that wait for a call to return, innermost first, with their number. -/
structure Callers where
  frames : List Frame := []
  depth : Nat := 0
  depth_eq : depth = frames.length := by simp

namespace Callers

def push (callers : Callers) (frame : Frame) : Callers where
  frames := frame :: callers.frames
  depth := callers.depth + 1
  depth_eq := by simp [callers.depth_eq]

def pop? (callers : Callers) : Option (Frame × Callers) :=
  match callers with
  | ⟨[], _, _⟩ => none
  | ⟨frame :: frames, depth, h⟩ => some (frame, ⟨frames, depth - 1, by simp [h]⟩)

end Callers

inductive Progress (σ : Type) where
  | running (frame : Frame) (callers : Callers) (host : σ)
  | halted (result : Except Stop (Option Word)) (host : σ)

inductive Action where
  | resume (frame : Frame)
  | call (frame : Frame) (callee : Function) (arguments : List Word)
      (destination : Option RegisterId)
  | host (frame : Frame) (symbol : String) (arguments : List Word)
      (destination : Option RegisterId)
  | ret (value : Option Value)

namespace Machine

/-- What an instruction does in a frame that has already moved past it. -/
def execute (module : Module) (frame : Frame) : Instruction → Step Action
  | .alloca slot => return .resume (← frame.writeSlot slot 0)
  | .load destination slot => do
    let word ← orFault (frame.slots.get? slot)
    return .resume (← frame.write destination (.int word))
  | .store slot value => do
    let word ← frame.readWord value
    return .resume (← frame.writeSlot slot word)
  | .arith op destination lhs rhs => do
    let left ← frame.readWord lhs
    let right ← frame.readWord rhs
    return .resume (← frame.write destination (.int (op.apply left right)))
  | .compare predicate destination lhs rhs => do
    let left ← frame.readWord lhs
    let right ← frame.readWord rhs
    return .resume (← frame.write destination (.bool (predicate.apply left right)))
  | .extend destination operand _ => do
    let word ← frame.readWord operand
    return .resume (← frame.write destination (.int word))
  | .call callee arguments destination => do
    match module.get? callee with
    | none => throw (.error (.unknownFunction s!"#{callee.index}"))
    | some function =>
      let words ← arguments.mapM frame.readWord
      if function.isDeclaration then return .host frame function.name words destination
      else return .call frame function words destination
  | .phi destination sources => do
    match frame.previous.bind sources.get? with
    | none => throw (.error (.missingPhiSource frame.function.name))
    | some source =>
      let value ← frame.read source
      return .resume (← frame.write destination value)
  | .jump target => return .resume (← frame.goto target)
  | .branch condition positive negative => do
    let value ← frame.read condition
    return .resume (← frame.goto (if value.toBool then positive else negative))
  | .ret none => return .ret none
  | .ret (some operand) => return .ret (some (← frame.read operand))

variable {σ : Type}

def proceed (callers : Callers) (host : σ) : Step Frame → Progress σ
  | .ok frame => .running frame callers host
  | .error stop => .halted (.error stop) host

/-- Enters a function from a frame that then waits, unless that makes more live frames than the
limit. The first frame, which `start` makes, is never refused. -/
def enter (limit : Nat) (frame : Frame) (callers : Callers) (callee : Function)
    (arguments : List Word) (destination : Option RegisterId) (state : σ) : Progress σ :=
  if callers.depth + 1 ≥ limit then .halted (.error (.error (.callDepthExceeded limit))) state
  else proceed (callers.push frame) state (Frame.enter callee arguments destination)

def step (host : Host σ) (module : Module) (limit : Nat) (frame : Frame) (callers : Callers)
    (state : σ) : Progress σ :=
  match frame.rest with
  | [] => .halted (.error .fault) state
  | instruction :: rest =>
    match execute module { frame with rest } instruction with
    | .error stop => .halted (.error stop) state
    | .ok (.resume next) => .running next callers state
    | .ok (.call next callee arguments destination) =>
      enter limit next callers callee arguments destination state
    | .ok (.host next symbol arguments destination) =>
      match host.call symbol arguments state with
      | (.error error, after) => .halted (.error (.error error)) after
      | (.ok result, after) =>
        proceed callers after (next.receive destination (result.map Value.int))
    | .ok (.ret value) =>
      match callers.pop? with
      | none => .halted (.ok (value.map Value.toWord)) state
      | some (caller, others) => proceed others state (caller.receive frame.destination value)

def advance (host : Host σ) (module : Module) (limit : Nat) : Nat → Progress σ → Progress σ
  | _, .halted result state => .halted result state
  | 0, .running frame callers state => .running frame callers state
  | fuel + 1, .running frame callers state =>
    advance host module limit fuel (step host module limit frame callers state)

/-- Starts the last function, by id, of the given name. -/
def start (host : Host σ) (module : Module) (name : String) (arguments : List Word) (state : σ) :
    Progress σ :=
  match module.functions.findLast? (·.name = name) with
  | none => .halted (.error (.error (.unknownFunction name))) state
  | some (_, function) =>
    if arguments.length ≠ function.parameters.length then
      .halted (.error (.error
        (.argumentCountMismatch name function.parameters.length arguments.length))) state
    else if function.isDeclaration then
      match host.call name arguments state with
      | (.ok result, after) => .halted (.ok result) after
      | (.error error, after) => .halted (.error (.error error)) after
    else
      proceed {} state (Frame.enter function arguments none)

def call (host : Host σ) (module : Module) (limit fuel : Nat) (name : String)
    (arguments : List Word) (state : σ) : Progress σ :=
  advance host module limit fuel (start host module name arguments state)

end Machine
end Slate
