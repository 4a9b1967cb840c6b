import Slate.Ir

/-! # Functions under construction

A draft is a function and the block that instructions are added to. Emitting an instruction that has
a result makes a fresh register for it.
-/

namespace Slate
set_option autoImplicit false

namespace Function

def newRegister (function : Function) (ty : Ty) : Function :=
  { function with registers := function.registers.push ty }

def newBlock (function : Function) (label : String) : Function :=
  { function with blocks := function.blocks.push { label } }

def append (function : Function) (id : BlockId) (instruction : Instruction) : Function :=
  { function with blocks := function.blocks.modify id fun block =>
      { block with code := block.code ++ [instruction] } }

def addEdge (function : Function) (source target : BlockId) : Function :=
  { function with blocks := function.blocks.modify target fun block =>
      { block with predecessors := block.predecessors.insert source } }

/-- Adds an `alloca` behind those at the front of a block. -/
def addAlloca (slot : SlotId) (code : List Instruction) : List Instruction :=
  code.takeWhile Instruction.isAlloca ++ .alloca slot :: code.dropWhile Instruction.isAlloca

def newSlot (function : Function) (id : BlockId) (slot : Slot) : Function :=
  { function with
    slots := function.slots.push slot
    blocks := function.blocks.modify id fun block =>
      { block with code := addAlloca function.slots.nextId block.code } }

/-- The bare declaration: no blocks, no slots, no registers but the parameters. -/
def withoutBody (function : Function) : Function :=
  { function with
    registers := function.registers.truncate function.parameters.length
    slots := .empty
    blocks := .empty }

end Function

structure Draft where
  function : Function
  block : BlockId

namespace Draft

def moveTo (block : BlockId) : StateM Draft Unit := modify ({ · with block })

def current : StateM Draft BlockId := return (← get).block

def newRegister (ty : Ty) : StateM Draft RegisterId := modifyGet fun draft =>
  (draft.function.registers.nextId, { draft with function := draft.function.newRegister ty })

def newBlock (label : String) : StateM Draft BlockId := modifyGet fun draft =>
  (draft.function.blocks.nextId, { draft with function := draft.function.newBlock label })

/-- Adds a slot whose `alloca` stands in the first block. -/
def newSlot (slot : Slot) : StateM Draft SlotId := modifyGet fun draft =>
  (draft.function.slots.nextId, { draft with function := draft.function.newSlot ⟨0⟩ slot })

def emit (instruction : Instruction) : StateM Draft Unit := modify fun draft =>
  { draft with function := draft.function.append draft.block instruction }

def addEdge (target : BlockId) : StateM Draft Unit := modify fun draft =>
  { draft with function := draft.function.addEdge draft.block target }

def emitResult (ty : Ty) (instruction : RegisterId → Instruction) : StateM Draft Operand := do
  let destination ← newRegister ty
  emit (instruction destination)
  return .register destination

def arith (op : Arith) (lhs rhs : Operand) : StateM Draft Operand :=
  emitResult .i32 (.arith op · lhs rhs)

def compare (predicate : Predicate) (lhs rhs : Operand) : StateM Draft Operand :=
  emitResult .i1 (.compare predicate · lhs rhs)

def extend (value : Operand) (ty : Ty) : StateM Draft Operand := emitResult ty (.extend · value ty)

def load (ty : Ty) (slot : SlotId) : StateM Draft Operand := emitResult ty (.load · slot)

def store (slot : SlotId) (value : Operand) : StateM Draft Unit := emit (.store slot value)

def call (callee : FunctionId) (result : Ty) (arguments : List Operand) :
    StateM Draft (Option Operand) := do
  if result = .void then
    emit (.call callee arguments none)
    return none
  else
    return some (← emitResult result fun destination => .call callee arguments (some destination))

def jump (target : BlockId) : StateM Draft Unit := do
  addEdge target
  emit (.jump target)

def branch (condition : Operand) (positive negative : BlockId) : StateM Draft Unit := do
  addEdge positive
  addEdge negative
  emit (.branch condition positive negative)

def phi (ty : Ty) (incoming : List (BlockId × Operand)) : StateM Draft Operand :=
  emitResult ty (.phi · (.ofList incoming))

def ret (value : Option Operand) : StateM Draft Unit := emit (.ret value)

def operandType? (value : Operand) : StateM Draft (Option Ty) :=
  return (← get).function.operandType? value

end Draft
end Slate
