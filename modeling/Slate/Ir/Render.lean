import Slate.Ir
import Slate.Text.Styled

/-! # The text of a module

Functions are printed in order of their ids. A function that names a missing parameter register, slot
or phi register has no text.
-/

namespace Slate
set_option autoImplicit false

namespace Render

def keyword (text : String) : Piece := .colored .magenta text

def op (text : String) : Piece := .colored .cyan text

def ty (ty : Ty) : Piece := .colored .green ty.text

def global (text : String) : Piece := .colored .blue text

def mark (text : String) : Piece := .colored .white text

def register (id : RegisterId) : Piece := .colored .yellow id.text

def slot (id : SlotId) : Piece := .colored .yellow id.text

def block (id : BlockId) : Piece := .plain id.text

def operand : Operand → Piece
  | .const value => .colored .magenta value.text
  | .register id => register id

def space : Piece := .plain " "

def comma : Piece := .plain ", "

def operands (list : List Operand) : Styled := Styled.join comma (list.map fun o => [operand o])

def assigning (destination : Piece) (rest : Styled) : Styled :=
  [destination, space, mark "=", space] ++ rest

def calleeName (module : Module) (id : FunctionId) : String :=
  ((module.get? id).map Function.name).getD "<removed>"

def instruction (module : Module) (function : Function) : Instruction → Option Styled
  | .alloca id => do
    let row ← function.slots.get? id
    return assigning (slot id)
      [op "alloca", space, ty row.ty, space, .dimmed s!"; {row.name}"]
  | .load destination id => return assigning (register destination) [op "load", space, slot id]
  | .store id value => return [op "store", space, slot id, comma, operand value]
  | .arith operator destination lhs rhs =>
    return assigning (register destination)
      [op operator.mnemonic, space, operand lhs, comma, operand rhs]
  | .compare predicate destination lhs rhs =>
    return assigning (register destination)
      [op "icmp", space, op predicate.mnemonic, space, operand lhs, comma, operand rhs]
  | .extend destination value width =>
    return assigning (register destination)
      [op "zext", space, operand value, space, op "to", space, ty width]
  | .call callee arguments destination =>
    let call := [op "call", space, global "@", global (calleeName module callee), .plain "("] ++
      operands arguments ++ [.plain ")"]
    return match destination with
      | some id => assigning (register id) call
      | none => call
  | .phi destination sources => do
    let width ← function.registers.get? destination
    let source := fun ((id, value) : BlockId × Operand) =>
      [.plain "[", block id, .plain ": ", operand value, .plain "]"]
    return assigning (register destination)
      ([.colored .brightGreen "phi", space, ty width, space] ++
        Styled.join comma (sources.entries.map source))
  | .jump target => return [op "jmp", space, block target]
  | .branch condition positive negative =>
    return [op "br", space, operand condition, comma, block positive, comma, block negative]
  | .ret (some value) => return [op "ret", space, operand value]
  | .ret none => return [op "ret", space, ty .void]

def blockComment (row : Block) : String :=
  let label := s!"; {row.label}"
  if row.predecessors.isEmpty then label
  else
    let leading := ", ".intercalate (row.predecessors.ids.map BlockId.text)
    s!"{label}, preds = {leading}"

def blockLines (module : Module) (function : Function) (id : BlockId) (row : Block) :
    Option Styled := do
  let lines ← row.code.mapM fun i => do
    let line ← instruction module function i
    return [.plain "    "] ++ line ++ [.plain "\n"]
  return [.colored .brightRed s!"{id.text}:", space, .dimmed (blockComment row), .plain "\n"] ++
    lines.flatten

def header (function : Function) : Option Styled := do
  let parameters ← function.parameters.mapM fun id => do
    let width ← function.registers.get? id
    return [ty width, space, register id]
  let shown := if function.signature.variadic then parameters ++ [[.plain "..."]] else parameters
  return [keyword (if function.isDeclaration then "declare" else "define"), space,
    keyword function.linkage.text, space, ty function.signature.result, space,
    global "@", global function.name, mark "("] ++ Styled.join comma shown ++ [mark ")"]

def function (module : Module) (row : Function) : Option Styled := do
  let head ← header row
  if row.isDeclaration then return head ++ [.plain "\n"]
  let blocks ← row.blocks.entries.mapM fun (id, block) => blockLines module row id block
  return head ++ [mark " \x7b\n"] ++ blocks.flatten ++ [mark "\x7d\n"]

end Render

/-- The text of a module, unless it names what it does not have. -/
def Module.render? (module : Module) : Option Styled := do
  let functions ← module.functions.values.mapM fun row => do
    let text ← Render.function module row
    return [.plain "\n"] ++ text
  return [Render.keyword "module", Render.space, Render.global module.name, .plain "\n"] ++
    functions.flatten

end Slate
