import Slate.Ir

/-! # Verification

`Module.verify` lists every violation of the rules of the intermediate form, function by function
and block by block; a module is accepted if the list is empty.
-/

namespace Slate
set_option autoImplicit false

inductive Flaw where
  | missingTerminator
  | instructionAfterTerminator
  | invalidBlock (target : BlockId)
  | invalidRegister (register : RegisterId)
  | invalidSlot (slot : SlotId)
  | invalidFunction
  | predecessorMismatch (recorded actual : IdSet .block)
  | phiNotAtStart
  | phiSourceMismatch (sources : List BlockId) (predecessors : IdSet .block)
  | operandTypeMismatch (expected actual : Ty)
  | nonBoolCondition (actual : Ty)
  | callArityMismatch (callee : String) (expected found : Nat)
  | returnTypeMismatch (expected actual : Ty)
  deriving DecidableEq

inductive VerifyError where
  | inBlock (function : String) (block : BlockId) (flaw : Flaw)
  | missingBody (function : String)
  deriving DecidableEq

def blockNumbers (blocks : List BlockId) : String :=
  "[" ++ ", ".intercalate (blocks.map fun block => toString block.index) ++ "]"

def Flaw.text : Flaw → String
  | .missingTerminator => "does not end in a terminator"
  | .instructionAfterTerminator => "continues after a terminator"
  | .invalidBlock target => s!"refers to block {target.index} which does not exist"
  | .invalidRegister register => s!"refers to register {register.text} which does not exist"
  | .invalidSlot slot => s!"refers to slot {slot.text} which does not exist"
  | .invalidFunction => "calls a function which is not in the module"
  | .predecessorMismatch recorded actual =>
    let edges := blockNumbers actual.ids
    s!"records predecessors {blockNumbers recorded.ids} but is reached from {edges}"
  | .phiNotAtStart => "has a phi after a non-phi instruction"
  | .phiSourceMismatch sources predecessors =>
    s!"has a phi over {blockNumbers sources} but predecessors {blockNumbers predecessors.ids}"
  | .operandTypeMismatch expected actual => s!"mixes {expected.text} and {actual.text} operands"
  | .nonBoolCondition actual => s!"branches on a {actual.text} condition"
  | .callArityMismatch callee expected found =>
    s!"calls `{callee}` with {found} argument(s), expected {expected}"
  | .returnTypeMismatch expected actual =>
    s!"returns {actual.text} from a function returning {expected.text}"

def VerifyError.message : VerifyError → String
  | .inBlock function block flaw => s!"`{function}` block {block.index} {flaw.text}"
  | .missingBody function => s!"`{function}` is local but has no body"

namespace Verify

def expectTy (expected actual : Ty) : List Flaw :=
  if expected = actual then [] else [.operandTypeMismatch expected actual]

def checkTarget (function : Function) (target : BlockId) : List Flaw :=
  if function.blocks.contains target then [] else [.invalidBlock target]

/-- The first register, of those an instruction reads and then the one it writes, that the function
does not have. -/
def badRegister? (function : Function) (instruction : Instruction) : Option RegisterId :=
  let read := instruction.operands.filterMap fun
    | .register id => some id
    | .const _ => none
  (read ++ instruction.destination?.toList).find? fun id => !function.registers.contains id

def checkSlot (function : Function) (instruction : Instruction) : List Flaw :=
  match instruction.slot? with
  | some slot => if function.slots.contains slot then [] else [.invalidSlot slot]
  | none => []

/-- Types of the operands of an instruction whose registers all exist. -/
def checkTypes (function : Function) : Instruction → List Flaw
  | .arith _ _ lhs rhs =>
    (function.operandType? lhs).elim [] (expectTy .i32) ++
      (function.operandType? rhs).elim [] (expectTy .i32)
  | .compare _ _ lhs rhs =>
    match function.operandType? lhs, function.operandType? rhs with
    | some left, some right => expectTy left right
    | _, _ => []
  | .store slot value =>
    match function.slots.get? slot, function.operandType? value with
    | some slot, some actual => expectTy slot.ty actual
    | _, _ => []
  | .branch condition .. =>
    match function.operandType? condition with
    | some .i1 | none => []
    | some actual => [.nonBoolCondition actual]
  | .phi destination sources =>
    match function.registers.get? destination with
    | some expected =>
      sources.values.flatMap fun value =>
        (function.operandType? value).elim [] (expectTy expected)
    | none => []
  | .ret (some value) =>
    match function.operandType? value with
    | some actual =>
      if function.signature.result = actual then []
      else [.returnTypeMismatch function.signature.result actual]
    | none => []
  | _ => []

/-- What does not depend on registers: where control goes, who is called, what a phi covers. -/
def checkShape (module : Module) (function : Function) (block : Block) : Instruction → List Flaw
  | .jump target => checkTarget function target
  | .branch _ positive negative => checkTarget function positive ++ checkTarget function negative
  | .phi _ sources =>
    if sources.keys = block.predecessors.ids then []
    else [.phiSourceMismatch sources.keys block.predecessors]
  | .call callee arguments _ =>
    match module.get? callee with
    | none => [.invalidFunction]
    | some target =>
      if target.signature.accepts arguments.length then []
      else [.callArityMismatch target.name target.signature.parameters.length arguments.length]
  | .ret none =>
    if function.signature.result = .void then []
    else [.returnTypeMismatch function.signature.result .void]
  | _ => []

def checkInstruction (module : Module) (function : Function) (block : Block)
    (instruction : Instruction) : List Flaw :=
  let bad := badRegister? function instruction
  (bad.map Flaw.invalidRegister).toList ++ checkSlot function instruction ++
    checkShape module function block instruction ++
    if bad.isNone then checkTypes function instruction else []

/-- Checks the instructions of a block in order, given whether one that is no phi came before. -/
def checkCode (module : Module) (function : Function) (block : Block) :
    Bool → List Instruction → List Flaw
  | _, [] => []
  | past, instruction :: rest =>
    (if instruction.isPhi && past then [.phiNotAtStart] else []) ++
      checkInstruction module function block instruction ++
      checkCode module function block (past || !instruction.isPhi) rest

def checkBlock (module : Module) (function : Function) (block : Block) : List Flaw :=
  (if block.terminator?.isSome then [] else [.missingTerminator]) ++
    (if block.code.dropLast.any Instruction.isTerminator then [.instructionAfterTerminator]
      else []) ++
    checkCode module function block false block.code

/-- The blocks whose terminator leads to the given block. -/
def actualPredecessors (function : Function) (id : BlockId) : IdSet .block :=
  .ofList ((function.blocks.entries.filter fun (_, block) =>
    block.successors.contains id).map Prod.fst)

def checkPredecessors (function : Function) (id : BlockId) (block : Block) : List Flaw :=
  let actual := actualPredecessors function id
  if block.predecessors = actual then [] else [.predecessorMismatch block.predecessors actual]

def located (function : Function) (check : BlockId → Block → List Flaw) : List VerifyError :=
  function.blocks.entries.flatMap fun (id, block) =>
    (check id block).map (VerifyError.inBlock function.name id)

def checkFunction (module : Module) (function : Function) : List VerifyError :=
  if function.isDeclaration then
    if function.linkage = .internal then [.missingBody function.name] else []
  else
    located function (fun _ block => checkBlock module function block) ++
      located function (checkPredecessors function)

end Verify

def Module.verify (module : Module) : List VerifyError :=
  module.functions.values.flatMap (Verify.checkFunction module)

def Module.refusal (module : Module) (errors : List VerifyError) : String :=
  s!"module `{module.name}` failed verification with {errors.length} error(s)"

end Slate
