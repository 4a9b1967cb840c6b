import Slate.Proofs.Evaluation
import Slate.Proofs.Machine.Soundness

/-! # Recursive evaluation

`Recursive.evaluate` runs the body of a function with registers and slots of its own and evaluates each call of
another body in place, one level deeper. There is no stack: a caller is what is left to evaluate, and an
error leaves all levels at once. The machine, which keeps its callers in a list and the register for a
result in the callee, ends exactly where this evaluation does.
-/

namespace Slate
set_option autoImplicit false

open Machine

/-- What a host is asked. -/
structure HostCall where
  symbol : String
  arguments : List Word
  deriving DecidableEq

/-- A host that answers as before and keeps what it is asked, in order. -/
def Host.recording {σ : Type} (host : Host σ) : Host (σ × List HostCall) where
  call symbol arguments state :=
    ((host.call symbol arguments state.1).1, (host.call symbol arguments state.1).2,
      state.2 ++ [⟨symbol, arguments⟩])

theorem Host.recording_call {σ : Type} (host : Host σ) {symbol : String} {arguments : List Word}
    {state after : σ} {answer : Except ExecutionError (Option Word)}
    (h : host.call symbol arguments state = (answer, after)) (calls : List HostCall) :
    host.recording.call symbol arguments (state, calls) = (answer, after, calls ++ [⟨symbol, arguments⟩]) := by
  simp only [recording, h]

namespace Recursive

/-- An evaluation gives a value or stops, with the host and the calls made of it so far. It gives nothing
where the fuel was not enough. -/
abbrev Eval (σ : Type) := ExceptT Stop (StateT (σ × List HostCall) Option)

variable {σ : Type}

def exhausted {α : Type} : Eval σ α := fun _ => none

def ask (host : Host σ) (symbol : String) (arguments : List Word) : Eval σ (Option Word) :=
  fun (state, calls) =>
    let (answer, after) := host.call symbol arguments state
    some (answer.mapError .error, after, calls ++ [⟨symbol, arguments⟩])

/-- The word that a value counts as. -/
def number : Value → Word
  | .int word => word
  | .bool true => 1
  | .bool false => 0

def holds : Predicate → Int → Int → Bool
  | .eq, a, b => decide (a = b)
  | .ne, a, b => decide (a ≠ b)
  | .sgt, a, b => decide (b < a)
  | .slt, a, b => decide (a < b)
  | .sge, a, b => decide (b ≤ a)
  | .sle, a, b => decide (a ≤ b)

/-- A body that is evaluated. Its registers and slots are maps, of which the ids of the function are in use. -/
structure Locals where
  function : Function
  registers : RegisterId → Option Value
  slots : SlotId → Word
  block : BlockId
  previous : Option BlockId
  rest : List Instruction

/-- What a body does next: it goes on, calls another body, asks the host, or has its value. -/
inductive Next where
  | go (locals : Locals)
  | call (locals : Locals) (callee : Function) (arguments : List Word) (register : Option RegisterId)
  | ask (locals : Locals) (symbol : String) (arguments : List Word) (register : Option RegisterId)
  | done (value : Option Value)

namespace Locals

def read (locals : Locals) : Operand → Step Value
  | .const value => .ok value
  | .register id =>
    if id.index < locals.function.registers.size then
      match locals.registers id with
      | some value => .ok value
      | none => .error (.error (.undefinedRegister locals.function.name id))
    else .error .fault

def word (locals : Locals) (operand : Operand) : Step Word := (locals.read operand).map number

def load (locals : Locals) (id : SlotId) : Step Word :=
  if id.index < locals.function.slots.size then .ok (locals.slots id) else .error .fault

/-- Writes one register and leaves everything else as it is. -/
def write (locals : Locals) (id : RegisterId) (value : Value) : Step Locals :=
  if id.index < locals.function.registers.size then
    .ok { locals with registers := fun other => if other = id then some value else locals.registers other }
  else .error .fault

def store (locals : Locals) (id : SlotId) (word : Word) : Step Locals :=
  if id.index < locals.function.slots.size then
    .ok { locals with slots := fun other => if other = id then word else locals.slots other }
  else .error .fault

def goto (locals : Locals) (target : BlockId) : Step Locals :=
  match locals.function.blocks.get? target with
  | some block => .ok { locals with block := target, previous := some locals.block, rest := block.code }
  | none => .error .fault

/-- Writes the result of a call to the register that the call has for it, if there are both. -/
def receive (locals : Locals) (register : Option RegisterId) (result : Option Value) : Step Locals :=
  match register, result with
  | some id, some value => locals.write id value
  | none, _ | _, none => .ok locals

/-- Registers without values, slots that are zero, and the arguments in the registers of the parameters. -/
def fresh (function : Function) (arguments : List Word) : Step Locals :=
  match function.blocks.get? ⟨0⟩ with
  | some block =>
    (function.parameters.zip arguments).foldlM (fun locals (id, argument) => locals.write id (.int argument))
      { function, registers := fun _ => none, slots := fun _ => 0, block := ⟨0⟩, previous := none
        rest := block.code }
  | none => .error .fault

/-- What an instruction does in a body that has already moved past it. -/
def next (module : Module) (locals : Locals) : Instruction → Step Next
  | .alloca slot => return .go (← locals.store slot 0)
  | .load destination slot => do
    let word ← locals.load slot
    return .go (← locals.write destination (.int word))
  | .store slot operand => do
    let word ← locals.word operand
    return .go (← locals.store slot word)
  | .arith op destination lhs rhs => do
    let left ← locals.word lhs
    let right ← locals.word rhs
    return .go (← locals.write destination (.int (Evaluation.compute op left right)))
  | .compare predicate destination lhs rhs => do
    let left ← locals.word lhs
    let right ← locals.word rhs
    return .go (← locals.write destination (.bool (holds predicate left.toInt right.toInt)))
  | .extend destination operand _ => do
    let word ← locals.word operand
    return .go (← locals.write destination (.int word))
  | .call callee arguments register =>
    match module.functions.get? callee with
    | none => .error (.error (.unknownFunction s!"#{callee.index}"))
    | some function => do
      let words ← arguments.mapM locals.word
      return if function.blocks.size = 0 then .ask locals function.name words register
        else .call locals function words register
  | .phi destination sources =>
    match locals.previous.bind sources.get? with
    | none => .error (.error (.missingPhiSource locals.function.name))
    | some source => do
      let value ← locals.read source
      return .go (← locals.write destination value)
  | .jump target => return .go (← locals.goto target)
  | .branch condition positive negative => do
    let value ← locals.read condition
    return .go (← locals.goto (if number value = 0 then negative else positive))
  | .ret none => return .done none
  | .ret (some operand) => do
    let value ← locals.read operand
    return .done (some value)

end Locals

/-- What comes after an instruction of a body at the given depth, which counts the body itself. The first
body is never refused, so a limit of 0 is one of 1. -/
def respond (host : Host σ) (limit depth : Nat) (evaluate : Nat → Locals → Eval σ (Option Value)) :
    Next → Eval σ (Option Value)
  | .go locals => evaluate depth locals
  | .call locals callee arguments register => do
    if max limit 1 ≤ depth then throw (.error (.callDepthExceeded limit))
    let value ← evaluate (depth + 1) (← Locals.fresh callee arguments)
    evaluate depth (← locals.receive register value)
  | .ask locals symbol arguments register => do
    let answer ← ask host symbol arguments
    evaluate depth (← locals.receive register (answer.map Value.int))
  | .done value => return value

/-- The value that a body returns. -/
def evaluate (host : Host σ) (module : Module) (limit : Nat) :
    (fuel depth : Nat) → Locals → Eval σ (Option Value)
  | 0, _, _ => exhausted
  | fuel + 1, depth, locals =>
    match locals.rest with
    | [] => throw .fault
    | instruction :: rest => do
      let next ← { locals with rest }.next module instruction
      respond host limit depth (evaluate host module limit fuel) next

/-- Calls the last function, by id, of the given name. -/
def call (host : Host σ) (module : Module) (limit fuel : Nat) (name : String)
    (arguments : List Word) : Eval σ (Option Word) :=
  match module.functions.findLast? (·.name = name) with
  | none => throw (.error (.unknownFunction name))
  | some (_, function) =>
    if arguments.length ≠ function.parameters.length then
      throw (.error (.argumentCountMismatch name function.parameters.length arguments.length))
    else if function.blocks.size = 0 then ask host name arguments
    else do
      let locals ← Locals.fresh function arguments
      let value ← evaluate host module limit fuel 1 locals
      return value.map number

end Recursive

/-! ### Bodies as frames -/

namespace Table

variable {kind : IdKind} {α : Type}

def tabulate (size : Nat) (row : Id kind → α) : Table kind α := ⟨Array.ofFn fun i : Fin size => row ⟨i⟩⟩

theorem get?_tabulate (size : Nat) (row : Id kind → α) (id : Id kind) :
    (tabulate size row).get? id = if id.index < size then some (row id) else none := by
  rw [get?, tabulate, Array.getElem?_ofFn]
  split <;> rfl

@[simp] theorem size_tabulate (n : Nat) (row : Id kind → α) : (tabulate n row).size = n := Array.size_ofFn

theorem contains_tabulate (size : Nat) (row : Id kind → α) (id : Id kind) :
    (tabulate size row).contains id = true ↔ id.index < size := by
  rw [contains_iff, size_tabulate]

theorem set_tabulate {size : Nat} {id : Id kind} (h : id.index < size) (row : Id kind → α) (new : α) :
    (tabulate size row).set id new = tabulate size fun other => if other = id then new else row other := by
  refine ext_get? fun key => ?_
  rw [get?_set, get?_tabulate, get?_tabulate, size_tabulate]
  by_cases hKey : key = id
  · simp [hKey, h]
  · simp [hKey]

theorem replicate_eq_tabulate (size : Nat) (row : α) :
    (⟨Array.replicate size row⟩ : Table kind α) = tabulate size fun _ => row := by
  refine ext_get? fun key => ?_
  rw [get?_tabulate, get?, Array.getElem?_replicate]

end Table

namespace Recursive

namespace Locals

/-- The frame in which the machine runs a body for a register of its caller. -/
def frame (locals : Locals) (destination : Option RegisterId) : Frame where
  function := locals.function
  registers := .tabulate locals.function.registers.size locals.registers
  slots := .tabulate locals.function.slots.size locals.slots
  block := locals.block
  previous := locals.previous
  rest := locals.rest
  destination

variable (locals : Locals) (destination : Option RegisterId)

theorem write_frame (id : RegisterId) (value : Value) :
    (locals.frame destination).write id value = (locals.write id value).map (·.frame destination) := by
  simp only [Frame.write, write, frame, Table.contains_tabulate]
  split
  · rename_i hLess
    rw [Table.set_tabulate hLess]
    rfl
  · rfl

theorem foldlM_write_frame (pairs : List (RegisterId × Word)) :
    pairs.foldlM (fun frame (id, argument) => frame.write id (.int argument)) (locals.frame destination) =
      (pairs.foldlM (fun locals (id, argument) => locals.write id (.int argument)) locals : Step Locals).map
        (·.frame destination) := by
  induction pairs generalizing locals with
  | nil => rfl
  | cons first rest ih =>
    obtain ⟨id, argument⟩ := first
    simp only [List.foldlM_cons, write_frame]
    cases locals.write id (.int argument) with
    | error stop => rfl
    | ok next => exact ih next

/-- The machine makes the frame of a fresh body. -/
theorem enter_eq (function : Function) (arguments : List Word) :
    Frame.enter function arguments destination =
      (fresh function arguments).map (·.frame destination) := by
  simp only [Frame.enter, fresh]
  cases function.blocks.get? ⟨0⟩ with
  | none => rfl
  | some block =>
    simp only [Table.replicate_eq_tabulate]
    exact foldlM_write_frame ⟨function, fun _ => none, fun _ => 0, ⟨0⟩, none, block.code⟩ destination _

end Locals

/-- What a body does next, asked of the stack. -/
def Next.action (destination : Option RegisterId) : Next → Action
  | .go locals => .resume (locals.frame destination)
  | .call locals callee arguments register => .call (locals.frame destination) callee arguments register
  | .ask locals symbol arguments register => .host (locals.frame destination) symbol arguments register
  | .done value => .ret value

end Recursive

/-! ### Runs beside evaluations -/

namespace Recursive

variable {σ α β : Type}

theorem bind_apply (action : Eval σ α) (next : α → Eval σ β) (state : σ × List HostCall) :
    (action >>= next) state = match action state with
      | none => none
      | some (.ok a, after) => next a after
      | some (.error stop, after) => some (.error stop, after) := by
  change (action state).bind (fun pair => ExceptT.bindCont next pair.1 pair.2) = _
  rcases action state with _ | ⟨_ | _, after⟩ <;> rfl

/-- A run goes beside an evaluation: it comes to where the value is passed on, halts with the same reason and
the same calls, or lasts for at least as many steps as the fuel that was not enough. -/
def Beside (host : Host σ) (module : Module) (limit fuel : Nat) (p : Progress (σ × List HostCall))
    (post : α → σ × List HostCall → Progress (σ × List HostCall)) :
    Option (Except Stop α × σ × List HostCall) → Prop
  | some (.ok a, after) => ∃ n, advance host.recording module limit n p = post a after
  | some (.error stop, after) =>
    ∃ n, advance host.recording module limit n p = .halted (.error stop) after
  | none => ∃ n, fuel ≤ n ∧ ∃ frame callers state,
    advance host.recording module limit n p = .running frame callers state

namespace Beside

variable {host : Host σ} {module : Module} {limit fuel : Nat} {p q : Progress (σ × List HostCall)}
  {post : α → σ × List HostCall → Progress (σ × List HostCall)}
  {post' : β → σ × List HostCall → Progress (σ × List HostCall)}

theorem now {a : α} {state : σ × List HostCall} (h : p = post a state) :
    Beside host module limit fuel p post (some (.ok a, state)) :=
  ⟨0, (advance_zero _ _ _ p).trans h⟩

theorem halt {stop : Stop} {state : σ × List HostCall} (h : p = .halted (.error stop) state) :
    Beside host module limit fuel p post (some (.error stop, state)) :=
  ⟨0, (advance_zero _ _ _ p).trans h⟩

theorem after {n fuel' : Nat} (hSteps : advance host.recording module limit n p = q)
    (hFuel : fuel' ≤ n + fuel) {outcome : Option (Except Stop α × σ × List HostCall)}
    (h : Beside host module limit fuel q post outcome) :
    Beside host module limit fuel' p post outcome := by
  subst hSteps
  rcases outcome with _ | ⟨stop | a, state⟩
  · obtain ⟨m, hLe, frame, callers, state, hm⟩ := h
    refine ⟨n + m, by omega, frame, callers, state, ?_⟩
    rw [advance_add]
    exact hm
  · obtain ⟨m, hm⟩ := h
    refine ⟨n + m, ?_⟩
    rw [advance_add]
    exact hm
  · obtain ⟨m, hm⟩ := h
    refine ⟨n + m, ?_⟩
    rw [advance_add]
    exact hm

/-- One step, for one unit of fuel. -/
theorem step {frame : Frame} {callers : Callers} {state : σ × List HostCall}
    (hStep : Machine.step host.recording module limit frame callers state = q)
    {outcome : Option (Except Stop α × σ × List HostCall)}
    (h : Beside host module limit fuel q post outcome) :
    Beside host module limit (fuel + 1) (.running frame callers state) post outcome :=
  h.after ((advance_one _ _ _ _ _ _).trans hStep) (Nat.le_of_eq (Nat.add_comm _ _))

theorem bind {action : Eval σ α} {next : α → Eval σ β} {state : σ × List HostCall}
    (h : Beside host module limit fuel p post (action state))
    (hNext : ∀ a after, Beside host module limit fuel (post a after) post' (next a after)) :
    Beside host module limit fuel p post' ((action >>= next) state) := by
  rw [bind_apply]
  rcases hAction : action state with _ | ⟨stop | a, after⟩
  · rw [hAction] at h
    exact h
  · rw [hAction] at h
    exact h
  · rw [hAction] at h
    obtain ⟨n, hn⟩ := h
    exact (hNext a after).after hn (Nat.le_add_left _ _)

/-- The frame of a body that was written or begun, if that was possible. -/
theorem proceed (attempt : Step Locals) (destination : Option RegisterId) (callers : Callers)
    (state : σ × List HostCall) :
    Beside host module limit fuel
      (Machine.proceed callers state (attempt.map (·.frame destination)))
      (fun locals after => .running (locals.frame destination) callers after)
      ((liftM attempt : Eval σ Locals) state) := by
  cases attempt with
  | ok locals => exact now rfl
  | error stop => exact halt rfl

theorem ask {symbol : String} {arguments : List Word} {state : σ × List HostCall}
    {post : Option Word → σ × List HostCall → Progress (σ × List HostCall)}
    (hError : ∀ error after, host.recording.call symbol arguments state = (.error error, after) →
      p = .halted (.error (.error error)) after)
    (hAnswer : ∀ answer after, host.recording.call symbol arguments state = (.ok answer, after) →
      p = post answer after) :
    Beside host module limit fuel p post (Recursive.ask host symbol arguments state) := by
  obtain ⟨state, calls⟩ := state
  rw [Recursive.ask]
  rcases hCall : host.call symbol arguments state with ⟨error | answer, after⟩
  · exact halt (hError error (after, _) (host.recording_call hCall calls))
  · exact now (hAnswer answer (after, _) (host.recording_call hCall calls))

end Beside

variable (host : Host σ) (module : Module) (limit : Nat)

end Recursive

/-! ### The record itself changes nothing -/

namespace Machine

variable {σ : Type} (host : Host σ) (module : Module) (limit : Nat)

end Machine

end Slate
