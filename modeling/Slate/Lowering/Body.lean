import Slate.Diagnostic
import Slate.Ir.Draft
import Slate.NameTable
import Slate.Tree

/-! # Lowering expressions

An expression adds instructions to the function under construction and has a value, or none: a loop
has none, nor has an expression in which something was reported. Comparisons give one-bit values,
which are widened to words wherever a word is needed.

Control flow moves on to other blocks, so a construct asks for the block it has arrived in before it
links that block to the next.
-/

namespace Slate.Lowering
set_option autoImplicit false

structure Body where
  draft : Draft
  scope : NameTable SlotId := .empty
  diagnostics : List Diagnostic := []

structure Callee where
  id : FunctionId
  signature : Signature

abbrev Callees := String → Option Callee

abbrev Lower := StateM Body

def draft {α : Type} (action : StateM Draft α) : Lower α := modifyGet fun body =>
  let (result, after) := action body.draft
  (result, { body with draft := after })

def report (complaint : Complaint) (span : Span) : Lower Unit := modify fun body =>
  { body with diagnostics := body.diagnostics ++ [⟨complaint, span⟩] }

def word (value : Word) : Operand := .const (.int value)

def bit (value : Bool) : Operand := .const (.bool value)

def isBit (value : Operand) : Lower Bool := return (← draft (Draft.operandType? value)) = some .i1

def toWord (value : Operand) : Lower Operand := do
  if ← isBit value then draft (Draft.extend value .i32) else return value

/-- The slot of a variable, made on its first assignment. -/
def slotFor (name : String) : Lower SlotId := do
  match (← get).scope.find? name with
  | some slot => return slot
  | none =>
    let slot ← draft (Draft.newSlot { ty := .i32, name })
    modify fun body => { body with scope := body.scope.insert name slot }
    return slot

def readVariable (name : Name) : Lower (Option Operand) := do
  match (← get).scope.find? name.text with
  | some slot => return some (← draft (Draft.load .i32 slot))
  | none =>
    report (.undefinedVariable name.text) name.span
    return none

/-- A one-bit value that says whether a conditional takes its first arm. -/
def isTruthy (value : Operand) : Lower Operand := do
  if ← isBit value then draft (Draft.compare .ne value (bit false))
  else draft (Draft.compare .ne value (word 0))

/-- A one-bit value that says whether a loop goes on. -/
def isTrue (value : Operand) : Lower Operand := do
  if ← isBit value then draft (Draft.compare .eq value (bit true))
  else draft (Draft.compare .ne value (word 0))

/-- Both operands as words, if both have values. The second is looked at once the first is
widened, so a first operand is widened also if the second has no value. -/
def wordPair (lhs rhs : Option Operand) : Lower (Option (Operand × Operand)) := do
  match lhs with
  | none => return none
  | some left =>
    let first ← toWord left
    match rhs with
    | none => return none
    | some right =>
      let second ← toWord right
      return some (first, second)

/-- Writes the number of variadic arguments in front of them. -/
def withCount (fixed : Nat) (arguments : List Operand) : List Operand :=
  let count := word (Int32.ofInt (arguments.length - fixed : Nat))
  arguments.take fixed ++ count :: arguments.drop fixed

def emitCall (name : Name) (callee : Callee) (arguments : List Operand) :
    Lower (Option Operand) := do
  let signature := callee.signature
  let fixed := signature.visibleArity
  let given := arguments.length
  if (if signature.variadic then fixed ≤ given else given = fixed) then
    let passed := if signature.variadic then withCount fixed arguments else arguments
    draft (Draft.call callee.id signature.result passed)
  else
    report (.argumentCountMismatch name.text signature.variadic fixed given) name.span
    return none

/-- Arms of different widths meet as words, widened before they leave their last block. -/
def unify (thenExit elseExit : BlockId) (thenValue elseValue : Operand) :
    Lower (Operand × Operand) := do
  let thenType ← draft (Draft.operandType? thenValue)
  let elseType ← draft (Draft.operandType? elseValue)
  if thenType = elseType then return (thenValue, elseValue)
  else
    draft (Draft.moveTo thenExit)
    let first ← toWord thenValue
    draft (Draft.moveTo elseExit)
    let second ← toWord elseValue
    return (first, second)

def merge (thenExit elseExit : BlockId) (thenValue elseValue : Option Operand) :
    Lower (Option Operand) := do
  let join ← draft (Draft.newBlock "ifcont")
  let incoming ← match thenValue, elseValue with
    | some first, some second => some <$> unify thenExit elseExit first second
    | _, _ => pure none
  draft (Draft.moveTo thenExit)
  draft (Draft.jump join)
  draft (Draft.moveTo elseExit)
  draft (Draft.jump join)
  draft (Draft.moveTo join)
  match incoming with
  | none => return none
  | some (first, second) =>
    let ty := (← draft (Draft.operandType? first)).getD .i32
    return some (← draft (Draft.phi ty [(thenExit, first), (elseExit, second)]))

mutual

def expression (callees : Callees) : Expr → Lower (Option Operand)
  | .int _ value => return some (word value)
  | .binary _ op lhs rhs => do
    let left ← expression callees lhs
    let right ← expression callees rhs
    match ← wordPair left right with
    | none => return none
    | some (first, second) => return some (← draft (Draft.arith op first second))
  | .compare _ op lhs rhs => do
    let left ← expression callees lhs
    let right ← expression callees rhs
    match ← wordPair left right with
    | none => return none
    | some (first, second) => return some (← draft (Draft.compare op.predicate first second))
  | .variable _ name => readVariable name
  | .assign _ target value => do
    let slot ← slotFor target.text
    match ← expression callees value with
    | none => return none
    | some result =>
      let stored ← toWord result
      draft (Draft.store slot stored)
      return some stored
  | .branch _ condition positive negative => do
    match ← expression callees condition with
    | none => return none
    | some value =>
      let test ← isTruthy value
      let thenBlock ← draft (Draft.newBlock "then")
      let elseBlock ← draft (Draft.newBlock "else")
      draft (Draft.branch test thenBlock elseBlock)
      draft (Draft.moveTo thenBlock)
      let thenValue ← arm callees (some (word 0)) positive
      let thenExit ← draft Draft.current
      draft (Draft.moveTo elseBlock)
      let elseValue ← arm callees (some (word 0)) negative
      let elseExit ← draft Draft.current
      merge thenExit elseExit thenValue elseValue
  | .loop _ initializer condition step body => do
    let _ ← expression callees initializer
    let condBlock ← draft (Draft.newBlock "cond")
    let loopBlock ← draft (Draft.newBlock "loop")
    let afterBlock ← draft (Draft.newBlock "afterloop")
    draft (Draft.jump condBlock)
    draft (Draft.moveTo condBlock)
    match ← expression callees condition with
    | some value =>
      let test ← isTrue value
      draft (Draft.branch test loopBlock afterBlock)
    | none => draft (Draft.jump afterBlock)
    draft (Draft.moveTo loopBlock)
    let _ ← arm callees none body
    let _ ← expression callees step
    draft (Draft.jump condBlock)
    draft (Draft.moveTo afterBlock)
    return none
  | .call _ callee arguments => do
    match callees callee.text with
    | none =>
      report (.undefinedFunction callee.text) callee.span
      return none
    | some target =>
      match ← words callees arguments with
      | none => return none
      | some values => emitCall callee target values

/-- Lowers a sequence; its value is that of the last expression, or the given one if it is empty. -/
def arm (callees : Callees) (value : Option Operand) : List Expr → Lower (Option Operand)
  | [] => return value
  | first :: rest => do
    let result ← expression callees first
    arm callees result rest

/-- Lowers arguments, each widened before the next; there is no list unless all have values. -/
def words (callees : Callees) : List Expr → Lower (Option (List Operand))
  | [] => return some []
  | first :: rest => do
    match ← expression callees first with
    | none =>
      let _ ← words callees rest
      return none
    | some result =>
      let value ← toWord result
      match ← words callees rest with
      | none => return none
      | some values => return some (value :: values)

end

end Slate.Lowering
