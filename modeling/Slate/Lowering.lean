import Slate.Host
import Slate.Ir.Assembly
import Slate.Lowering.Body

/-! # Lowering programs

Items are lowered one after the other into one module. Top-level expressions go to the entry function,
which is open until the end; each definition gets a function of its own. An item with problems is
reported and leaves the functions of other names as they were.
-/

namespace Slate
set_option autoImplicit false

/-- The implicit function of all top-level expressions. -/
def entryName : String := "main"

inductive Event where
  | diagnostic (problem : Diagnostic)
  | declared (name : String) (arity : Nat)
  | lowered (name : String)
  | produced (value : Option Operand)

def Event.diagnostic? : Event → Option Diagnostic
  | .diagnostic problem => some problem
  | _ => none

structure Lowering where
  assembly : Assembly
  /-- The functions that can be called, by the names that programs use. -/
  functions : NameTable FunctionId
  entry : FunctionId
  /-- Where the next top-level expression goes on in the entry function. -/
  insertion : BlockId
  scope : NameTable SlotId

namespace Lowering

def start (module : String) : Lowering :=
  let declareHost := fun (state : Assembly × NameTable FunctionId) (host : HostFunction) =>
    (state.1.declare host.symbol host.signature .external, state.2.insert host.name state.1.next)
  let (hosts, functions) := hostFunctions.foldl declareHost (.new module, .empty)
  let entry := hosts.next
  let declared := hosts.declare entryName { parameters := [], result := .void } .internal
  let assembly := match declared.get? entry with
    | some function => declared.put entry (function.newBlock "entry")
    | none => declared
  { assembly, functions, entry, insertion := ⟨0⟩, scope := .empty }

def isReserved (name : String) : Bool :=
  name = entryName || hostFunctions.any fun host => host.name = name || host.symbol = name

/-- The first parameter whose name an earlier one has. -/
def duplicate? (seen : List String) : List Name → Option Name
  | [] => none
  | first :: rest =>
    if seen.contains first.text then some first else duplicate? (first.text :: seen) rest

def callees (state : Lowering) : Callees := fun name => do
  let id ← state.functions.find? name
  let function ← state.assembly.get? id
  return ⟨id, function.signature⟩

/-- A function that was declared before, perhaps one that calls still refer to after its definition
was discarded. -/
def declared? (state : Lowering) (name : String) : Option FunctionId :=
  match state.functions.find? name with
  | some id => some id
  | none => state.assembly.module.lookup? name

/-- Declares a function, or finds the declaration it repeats. -/
def prototype (state : Lowering) (head : Prototype) :
    Except Diagnostic (FunctionId × Lowering × List Event) :=
  let name := head.name.text
  let arity := head.parameters.length
  if isReserved name then .error ⟨.reservedName name, head.name.span⟩
  else match duplicate? [] head.parameters with
  | some parameter => .error ⟨.duplicateParameter parameter.text name, parameter.span⟩
  | none =>
    match (state.declared? name).bind fun id => (state.assembly.get? id).map (id, ·) with
    | some (id, function) =>
      let declared := function.signature.parameters.length
      if !function.isDeclaration then .error ⟨.alreadyDefined name, head.name.span⟩
      else if declared ≠ arity then .error ⟨.arityChanged name declared arity, head.span⟩
      else .ok (id, { state with functions := state.functions.insert name id }, [])
    | none =>
      let id := state.assembly.next
      .ok (id,
        { state with
          assembly := state.assembly.declare name (.ofArity arity) .external
          functions := state.functions.insert name id },
        [.declared name arity])

def bindParameters : List (Name × RegisterId) → Lower Unit
  | [] => return
  | (name, register) :: rest => do
    let slot ← draft (Draft.newSlot { ty := .i32, name := name.text })
    draft (Draft.store slot (.register register))
    modify fun body => { body with scope := body.scope.insert name.text slot }
    bindParameters rest

def definitionBody (callees : Callees) (parameters : List (Name × RegisterId)) (body : Expr) :
    Lower (Option Operand) := do
  bindParameters parameters
  match ← expression callees body with
  | none => return none
  | some value =>
    let result ← toWord value
    draft (Draft.ret (some result))
    return some result

def definition (state : Lowering) (head : Prototype) (body : Expr) : Lowering × List Event :=
  match state.prototype head with
  | .error problem => (state, [.diagnostic problem])
  | .ok (id, declared, events) =>
    match declared.assembly.get? id with
    | none => (declared, events)
    | some function =>
      let parameters := head.parameters.zip function.parameters
      let opened : Body := { draft := ⟨function.newBlock "entry", ⟨0⟩⟩ }
      let (value, final) := definitionBody declared.callees parameters body opened
      let reported := events ++ final.diagnostics.map .diagnostic
      match value with
      | some _ =>
        ({ declared with assembly := declared.assembly.put id final.draft.function },
          reported ++ [.lowered head.name.text])
      | none =>
        ({ declared with
            assembly := declared.assembly.discard id function
            functions := declared.functions.erase head.name.text },
          reported ++ [.diagnostic ⟨.malformedBody head.name.text, body.span⟩])

def topLevel (state : Lowering) (body : Expr) : Lowering × List Event :=
  match state.assembly.get? state.entry with
  | none => (state, [])
  | some function =>
    let opened : Body := { draft := ⟨function, state.insertion⟩, scope := state.scope }
    let (value, final) := expression state.callees body opened
    ({ state with
        assembly := state.assembly.put state.entry final.draft.function
        insertion := final.draft.block
        scope := final.scope },
      final.diagnostics.map .diagnostic ++ [.produced value])

def item (state : Lowering) : Item → Lowering × List Event
  | .declaration _ head =>
    match state.prototype head with
    | .error problem => (state, [.diagnostic problem])
    | .ok (_, declared, events) => (declared, events)
  | .definition _ head body => state.definition head body
  | .expression body => state.topLevel body

def items (state : Lowering) : List Item → Lowering × List Event
  | [] => (state, [])
  | first :: rest =>
    let (next, events) := state.item first
    let (final, others) := next.items rest
    (final, events ++ others)

def finish (state : Lowering) : Module :=
  match state.assembly.get? state.entry with
  | some function =>
    (state.assembly.put state.entry (function.append state.insertion (.ret none))).module
  | none => state.assembly.module

end Lowering

def lowerProgram (module : String) (program : List Item) : Module × List Event :=
  let (final, events) := (Lowering.start module).items program
  (final.finish, events)

end Slate
