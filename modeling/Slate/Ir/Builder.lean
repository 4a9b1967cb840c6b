import Slate.Ir.Assembly

/-! # Building modules by hand

A builder is an assembly with a cursor. Its operations take handles of functions, blocks and slots,
and answer `none` when a handle names something that is not there, when there is no cursor, or when
control would leave the function under the cursor.
-/

namespace Slate
set_option autoImplicit false

structure BlockRef where
  function : FunctionId
  block : BlockId
  deriving DecidableEq

structure SlotRef where
  function : FunctionId
  slot : SlotId
  deriving DecidableEq

structure Builder where
  assembly : Assembly
  cursor : Option BlockRef := none

abbrev Build := StateT Builder Option

namespace Builder

def new (module : String) : Builder := { assembly := .new module }

def module (builder : Builder) : Module := builder.assembly.module

def function (id : FunctionId) : Build Function := do
  StateT.lift ((← get).assembly.get? id)

def putFunction (id : FunctionId) (function : Function) : Build Unit :=
  modify fun builder => { builder with assembly := builder.assembly.put id function }

def insertionBlock : Build BlockRef := do StateT.lift (← get).cursor

def setInsertionPoint (block : BlockRef) : Build Unit := modify ({ · with cursor := some block })

def declare (name : String) (signature : Signature) (linkage : Linkage) : Build FunctionId :=
  modifyGet fun builder =>
    (builder.assembly.next,
      { builder with assembly := builder.assembly.declare name signature linkage })

def lookup (name : String) : Build (Option FunctionId) := return (← get).module.lookup? name

def signature (id : FunctionId) : Build Signature := return (← function id).signature

def hasBody (id : FunctionId) : Build Bool := return !(← function id).isDeclaration

def isReferenced (id : FunctionId) : Build Bool := return (← get).module.isReferenced id

/-- Deletes the body of a function; a cursor in it is lost. -/
def discard (id : FunctionId) : Build Unit := do
  let target ← function id
  modify fun builder => {
    assembly := builder.assembly.discard id target
    cursor := builder.cursor.filter fun place => place.function != id }

def parameter (id : FunctionId) (index : Nat) : Build Operand := do
  return .register (← StateT.lift (← function id).parameters[index]?)

def createBlock (id : FunctionId) (label : String) : Build BlockRef := do
  let target ← function id
  putFunction id (target.newBlock label)
  return ⟨id, target.blocks.nextId⟩

def entryBlock (id : FunctionId) : Build (Option BlockRef) := do
  let target ← function id
  return if target.isDeclaration then none else some ⟨id, ⟨0⟩⟩

def alloca (place : BlockRef) (slot : Slot) : Build SlotRef := do
  let target ← function place.function
  guard (target.blocks.contains place.block)
  putFunction place.function (target.newSlot place.block slot)
  return ⟨place.function, target.slots.nextId⟩

def valueType (value : Operand) : Build Ty := do
  let target ← function (← insertionBlock).function
  StateT.lift (target.operandType? value)

def atCursor {α : Type} (action : StateM Draft α) : Build α := do
  let place ← insertionBlock
  let target ← function place.function
  guard (target.blocks.contains place.block)
  let (result, draft) := action ⟨target, place.block⟩
  putFunction place.function draft.function
  return result

def localBlock (place : BlockRef) : Build BlockId := do
  let cursor ← insertionBlock
  guard (place.function = cursor.function)
  return place.block

def targetBlock (place : BlockRef) : Build BlockId := do
  let block ← localBlock place
  guard ((← function place.function).blocks.contains block)
  return block

def arith (op : Arith) (lhs rhs : Operand) : Build Operand := atCursor (Draft.arith op lhs rhs)

def compare (predicate : Predicate) (lhs rhs : Operand) : Build Operand :=
  atCursor (Draft.compare predicate lhs rhs)

def extend (value : Operand) (ty : Ty) : Build Operand := atCursor (Draft.extend value ty)

def load (slot : SlotRef) : Build Operand := do
  let row ← StateT.lift ((← function slot.function).slots.get? slot.slot)
  atCursor (Draft.load row.ty slot.slot)

def store (slot : SlotRef) (value : Operand) : Build Unit := atCursor (Draft.store slot.slot value)

def call (callee : FunctionId) (arguments : List Operand) : Build (Option Operand) := do
  let result := (← signature callee).result
  atCursor (Draft.call callee result arguments)

def jump (target : BlockRef) : Build Unit := do
  let block ← targetBlock target
  atCursor (Draft.jump block)

def branch (condition : Operand) (positive negative : BlockRef) : Build Unit := do
  let first ← targetBlock positive
  let second ← targetBlock negative
  atCursor (Draft.branch condition first second)

def phi (ty : Ty) (incoming : List (Operand × BlockRef)) : Build Operand := do
  let sources ← incoming.mapM fun (value, place) => return (← localBlock place, value)
  atCursor (Draft.phi ty sources)

def ret (value : Option Operand) : Build Unit := atCursor (Draft.ret value)

end Builder
end Slate
