import Slate.Id.Map
import Slate.Id.Table
import Slate.Word

/-! # The intermediate form

A module holds functions made of blocks of instructions. Mutable variables live in stack slots, read
and written by `load` and `store`; intermediate results live in registers. A function without blocks
is a declaration, and calls to it go to the host.
-/

namespace Slate
set_option autoImplicit false

inductive Ty where
  | i1 | i32 | void
  deriving DecidableEq

def Ty.text : Ty → String
  | .i1 => "i1"
  | .i32 => "i32"
  | .void => "void"

/-- Parameter and result types. The last parameter of a variadic function is the number of
arguments that follow it. -/
structure Signature where
  parameters : List Ty
  result : Ty
  variadic : Bool := false
  deriving DecidableEq

namespace Signature

def ofArity (arity : Nat) : Signature := { parameters := List.replicate arity .i32, result := .i32 }

/-- How many arguments a caller writes before any variadic ones; the count parameter of a variadic
function is not written. -/
def visibleArity (signature : Signature) : Nat :=
  if signature.variadic then signature.parameters.length - 1 else signature.parameters.length

def accepts (signature : Signature) (given : Nat) : Bool :=
  if signature.variadic then decide (signature.parameters.length ≤ given)
  else decide (given = signature.parameters.length)

end Signature

inductive Linkage where
  | internal
  /-- May be left to the host. -/
  | external
  deriving DecidableEq

def Linkage.text : Linkage → String
  | .internal => "local"
  | .external => "external"

inductive Value where
  | int (word : Word)
  | bool (bit : Bool)
  deriving DecidableEq

namespace Value

def ty : Value → Ty
  | .int _ => .i32
  | .bool _ => .i1

def toWord : Value → Word
  | .int word => word
  | .bool bit => if bit then 1 else 0

def toBool : Value → Bool
  | .int word => decide (word ≠ 0)
  | .bool bit => bit

def text : Value → String
  | .int word => word.text
  | .bool bit => if bit then "true" else "false"

end Value

inductive Operand where
  | const (value : Value)
  | register (id : RegisterId)
  deriving DecidableEq

def Operand.text : Operand → String
  | .const value => value.text
  | .register id => id.text

inductive Instruction where
  /-- Sets the slot to zero. -/
  | alloca (slot : SlotId)
  | load (destination : RegisterId) (slot : SlotId)
  | store (slot : SlotId) (value : Operand)
  | arith (op : Arith) (destination : RegisterId) (lhs rhs : Operand)
  | compare (predicate : Predicate) (destination : RegisterId) (lhs rhs : Operand)
  | extend (destination : RegisterId) (operand : Operand) (ty : Ty)
  | call (callee : FunctionId) (arguments : List Operand) (destination : Option RegisterId)
  /-- Takes the operand that belongs to the block control came from. -/
  | phi (destination : RegisterId) (sources : IdMap .block Operand)
  | jump (target : BlockId)
  | branch (condition : Operand) (positive negative : BlockId)
  | ret (value : Option Operand)
  deriving DecidableEq

namespace Instruction

def isTerminator : Instruction → Bool
  | .jump .. | .branch .. | .ret .. => true
  | _ => false

def isPhi : Instruction → Bool
  | .phi .. => true
  | _ => false

def isAlloca : Instruction → Bool
  | .alloca .. => true
  | _ => false

def destination? : Instruction → Option RegisterId
  | .load destination _ | .arith _ destination .. | .compare _ destination ..
  | .extend destination .. | .phi destination _ => some destination
  | .call _ _ destination => destination
  | .alloca _ | .store .. | .jump _ | .branch .. | .ret _ => none

def operands : Instruction → List Operand
  | .store _ value => [value]
  | .arith _ _ lhs rhs | .compare _ _ lhs rhs => [lhs, rhs]
  | .extend _ operand _ => [operand]
  | .call _ arguments _ => arguments
  | .phi _ sources => sources.values
  | .branch condition .. => [condition]
  | .ret value => value.toList
  | .alloca _ | .load .. | .jump _ => []

def slot? : Instruction → Option SlotId
  | .alloca slot | .load _ slot | .store slot _ => some slot
  | _ => none

def targets : Instruction → List BlockId
  | .jump target => [target]
  | .branch _ positive negative => [positive, negative]
  | _ => []

def calls (callee : FunctionId) : Instruction → Bool
  | .call target .. => decide (target = callee)
  | _ => false

end Instruction

/-- A block does not store its id, which is its place in the table of its function. -/
structure Block where
  /-- A hint for readers, not unique. -/
  label : String
  code : List Instruction := []
  /-- The blocks recorded as leading here. -/
  predecessors : IdSet .block := .empty
  deriving DecidableEq

namespace Block

def terminator? (block : Block) : Option Instruction :=
  block.code.getLast?.filter Instruction.isTerminator

def successors (block : Block) : List BlockId :=
  (block.terminator?.map Instruction.targets).getD []

end Block

/-- As for a block, the id is the place in the table of the function. -/
structure Slot where
  ty : Ty
  name : String
  deriving DecidableEq

/-- The id of a function is its key in the module, and no field of its own. -/
structure Function where
  name : String
  signature : Signature
  linkage : Linkage
  registers : Table .register Ty
  parameters : List RegisterId
  slots : Table .slot Slot := .empty
  /-- The first block is where control enters. -/
  blocks : Table .block Block := .empty
  deriving DecidableEq

namespace Function

def isDeclaration (function : Function) : Bool := function.blocks.isEmpty

def operandType? (function : Function) : Operand → Option Ty
  | .const value => some value.ty
  | .register id => function.registers.get? id

def code (function : Function) : List Instruction :=
  function.blocks.toList.flatMap Block.code

end Function

structure Module where
  name : String
  functions : IdMap .function Function := .empty
  deriving DecidableEq

namespace Module

def get? (module : Module) (id : FunctionId) : Option Function := module.functions.get? id

/-- The first function, by id, of the given name. -/
def lookup? (module : Module) (name : String) : Option FunctionId :=
  (module.functions.find? (·.name = name)).map Prod.fst

def isReferenced (module : Module) (id : FunctionId) : Bool :=
  module.functions.values.any fun function => function.code.any (Instruction.calls id)

end Module
end Slate
