import Slate.Proofs.Render.Text

/-! # The text of an instruction

The text of an instruction is its destination, if it has one, a word for what it does, and its operands. It
says everything but the id of a function that is called; and it also says the type and name of a slot that
is reserved, and the type of a register that a phi writes.
-/

namespace Slate
set_option autoImplicit false

namespace Render

variable (module : Module) (f : Function)

/-- The text in front of the equals sign. -/
def target? : Instruction → Option (List Char)
  | .alloca id => some id.text.toList
  | instruction => instruction.destination?.map (RegisterId.text · |>.toList)

def opcode : Instruction → String
  | .alloca _ => "alloca"
  | .load .. => "load"
  | .store .. => "store"
  | .arith op .. => op.mnemonic
  | .compare .. => "icmp"
  | .extend .. => "zext"
  | .call .. => "call"
  | .phi .. => "phi"
  | .jump _ => "jmp"
  | .branch .. => "br"
  | .ret _ => "ret"

def sourceText (source : BlockId × Operand) : List Char :=
  '[' :: (source.1.text.toList ++ ':' :: ' ' :: (source.2.text.toList ++ [']']))

/-- The text behind the opcode. -/
def rest : Instruction → List Char
  | .alloca id => (f.slots.get? id).elim [] fun row =>
    row.ty.text.toList ++ ' ' :: ';' :: ' ' :: row.name.toList
  | .load _ id => id.text.toList
  | .store id value => id.text.toList ++ ',' :: ' ' :: value.text.toList
  | .arith _ _ lhs rhs => lhs.text.toList ++ ',' :: ' ' :: rhs.text.toList
  | .compare predicate _ lhs rhs =>
    predicate.mnemonic.toList ++ ' ' :: (lhs.text.toList ++ ',' :: ' ' :: rhs.text.toList)
  | .extend _ value width => value.text.toList ++ ' ' :: 't' :: 'o' :: ' ' :: width.text.toList
  | .call callee arguments _ => '@' :: ((calleeName module callee).toList ++
    '(' :: (commas (arguments.map fun argument => argument.text.toList) ++ [')']))
  | .phi destination sources => (f.registers.get? destination).elim [] fun width =>
    width.text.toList ++ ' ' :: commas (sources.entries.map sourceText)
  | .jump target => target.text.toList
  | .branch condition positive negative => condition.text.toList ++ ',' :: ' ' ::
    (positive.text.toList ++ ',' :: ' ' :: negative.text.toList)
  | .ret (some value) => value.text.toList
  | .ret none => Ty.void.text.toList

@[simp] theorem text_plain (text : String) : (Piece.plain text).text = text := rfl
@[simp] theorem text_colored (color : Color) (text : String) : (Piece.colored color text).text = text := rfl
@[simp] theorem text_dimmed (text : String) : (Piece.dimmed text).text = text := rfl
@[simp] theorem text_keyword (text : String) : (keyword text).text = text := rfl
@[simp] theorem text_op (text : String) : (op text).text = text := rfl
@[simp] theorem text_ty (width : Ty) : (ty width).text = width.text := rfl
@[simp] theorem text_global (text : String) : (global text).text = text := rfl
@[simp] theorem text_mark (text : String) : (mark text).text = text := rfl
@[simp] theorem text_register (id : RegisterId) : (register id).text = id.text := rfl
@[simp] theorem text_slot (id : SlotId) : (slot id).text = id.text := rfl
@[simp] theorem text_block (id : BlockId) : (block id).text = id.text := rfl
@[simp] theorem text_space : space.text = " " := rfl
@[simp] theorem text_comma : comma.text = ", " := rfl

@[simp] theorem text_operand (value : Operand) : (operand value).text = value.text := by
  cases value with
  | const value => rfl
  | register id => rfl

@[simp] theorem chars_assigning (destination : Piece) (text : Styled) : (assigning destination text).chars =
    destination.text.toList ++ ' ' :: '=' :: ' ' :: text.chars := by
  simp [assigning]

@[simp] theorem chars_join (texts : List Styled) :
    (Styled.join comma texts).chars = commas (texts.map Styled.chars) := by
  induction texts with
  | nil => rfl
  | cons first rest ih =>
    cases rest with
    | nil => simp [Styled.join]
    | cons second rest =>
      rw [List.map_cons, List.map_cons, commas_cons_cons, ← List.map_cons, ← ih]
      simp [Styled.join]

@[simp] theorem chars_operands (list : List Operand) :
    (operands list).chars = commas (list.map fun value => value.text.toList) := by
  simp [operands, Function.comp_def]

theorem instruction_chars {i : Instruction} {text : Styled} (h : instruction module f i = some text) :
    text.chars = (target? i).elim [] (· ++ [' ', '=', ' ']) ++ ((opcode i).toList ++ ' ' :: rest module f i) := by
  cases i with
  | alloca id =>
    obtain ⟨row, hRow, hText⟩ := Option.bind_eq_some_iff.mp h
    cases hText
    simp [target?, opcode, rest, hRow, toString]
  | phi destination sources =>
    obtain ⟨width, hWidth, hText⟩ := Option.bind_eq_some_iff.mp h
    cases hText
    simp [target?, opcode, rest, hWidth, Instruction.destination?, Function.comp_def]
    rfl
  | call callee arguments destination =>
    cases destination with
    | none =>
      cases h
      simp [target?, opcode, rest, Instruction.destination?]
    | some id =>
      cases h
      simp [target?, opcode, rest, Instruction.destination?]
  | ret value =>
    cases value with
    | none =>
      cases h
      simp [target?, opcode, rest, Instruction.destination?]
    | some value =>
      cases h
      simp [target?, opcode, rest, Instruction.destination?]
  | load | store | arith | compare | extend | jump | branch =>
    cases h
    simp [target?, opcode, rest, Instruction.destination?]

/-! ## What the text says -/

def opcodes : List String :=
  ["alloca", "load", "store", "add", "sub", "mul", "icmp", "zext", "call", "phi", "jmp", "br", "ret"]

theorem opcode_mem (i : Instruction) : opcode i ∈ opcodes := by
  cases i with
  | arith op => cases op <;> simp [opcode, opcodes, Arith.mnemonic]
  | _ => simp [opcode, opcodes]

theorem solid_opcode (i : Instruction) : Solid (opcode i).toList :=
  (by decide : ∀ text ∈ opcodes, Solid text.toList) _ (opcode_mem i)

/-- The constructor that an opcode stands for. -/
def kindOf (text : String) : Nat :=
  if text ∈ ["add", "sub", "mul"] then 3
  else ["alloca", "load", "store", "add", "icmp", "zext", "call", "phi", "jmp", "br", "ret"].idxOf text

theorem kindOf_opcode (i : Instruction) : kindOf (opcode i) = i.ctorIdx := by
  cases i with
  | arith op => cases op <;> rfl
  | _ => rfl

/-- A destination is a register or a slot. -/
theorem target_text {i : Instruction} {text : List Char} (h : target? i = some text) :
    Solid text ∧ ('%' ∈ text ∨ '$' ∈ text) := by
  have hRegister : ∀ text ∈ i.destination?.map (RegisterId.text · |>.toList),
      Solid text ∧ ('%' ∈ text ∨ '$' ∈ text) := by
    intro text hText
    obtain ⟨id, -, rfl⟩ := Option.map_eq_some_iff.mp hText
    exact ⟨solid_register id, .inl (by simp [register_text])⟩
  cases i with
  | alloca id =>
    cases h
    exact ⟨solid_slot id, .inr (by simp [slot_text])⟩
  | _ => exact hRegister text h

theorem target_ne_opcode {i i' : Instruction} {text : List Char} (h : target? i = some text) :
    text ≠ (opcode i').toList := by
  rintro rfl
  have hNone := (by decide : ∀ text ∈ opcodes, '%' ∉ text.toList ∧ '$' ∉ text.toList) _ (opcode_mem i')
  rcases (target_text h).2 with hMem | hMem
  · exact hNone.1 hMem
  · exact hNone.2 hMem

theorem parts_of_chars {i i' : Instruction} {text text' : List Char}
    (h : (target? i).elim [] (· ++ [' ', '=', ' ']) ++ ((opcode i).toList ++ ' ' :: text) =
      (target? i').elim [] (· ++ [' ', '=', ' ']) ++ ((opcode i').toList ++ ' ' :: text')) :
    target? i = target? i' ∧ opcode i = opcode i' ∧ text = text' := by
  have hOpcodes : (opcode i).toList ++ ' ' :: text = (opcode i').toList ++ ' ' :: text' →
      opcode i = opcode i' ∧ text = text' := by
    intro hText
    obtain ⟨hOpcode, hRest⟩ := Solid.cut hText (solid_opcode i) (solid_opcode i') rfl
    exact ⟨String.toList_inj.mp hOpcode, hRest⟩
  cases hTarget : target? i with
  | none =>
    cases hTarget' : target? i' with
    | none =>
      rw [hTarget, hTarget'] at h
      exact ⟨rfl, hOpcodes h⟩
    | some target' =>
      simp only [hTarget, hTarget', Option.elim, List.nil_append, List.append_assoc, List.cons_append] at h
      have hEq := (Solid.cut h (solid_opcode i) (target_text hTarget').1 rfl).1
      exact absurd hEq.symm (target_ne_opcode hTarget')
  | some target =>
    cases hTarget' : target? i' with
    | none =>
      simp only [hTarget, hTarget', Option.elim, List.nil_append, List.append_assoc, List.cons_append] at h
      have hEq := (Solid.cut h (target_text hTarget).1 (solid_opcode i') rfl).1
      exact absurd hEq (target_ne_opcode hTarget)
    | some target' =>
      simp only [hTarget, hTarget', Option.elim, List.nil_append, List.append_assoc, List.cons_append] at h
      obtain ⟨hEq, hRest⟩ := Solid.cut h (target_text hTarget).1 (target_text hTarget').1 rfl
      simp only [List.cons.injEq, true_and] at hRest
      exact ⟨by rw [hEq], hOpcodes hRest⟩

/-! ## Instructions of two functions -/

end Render

/-- Two instructions, of functions of two modules, that show the same. -/
inductive Instruction.Matches (module module' : Module) (f f' : Function) : Instruction → Instruction → Prop
  | alloca {id : SlotId} {row : Slot} (here : f.slots.get? id = some row)
      (there : f'.slots.get? id = some row) : Matches module module' f f' (.alloca id) (.alloca id)
  | call {callee callee' : FunctionId} (arguments : List Operand) (destination : Option RegisterId)
      (name : Render.calleeName module callee = Render.calleeName module' callee') :
      Matches module module' f f' (.call callee arguments destination) (.call callee' arguments destination)
  | phi {destination : RegisterId} {width : Ty} (sources : IdMap .block Operand)
      (here : f.registers.get? destination = some width) (there : f'.registers.get? destination = some width) :
      Matches module module' f f' (.phi destination sources) (.phi destination sources)
  | same {instruction : Instruction} (alloca : instruction.isAlloca = false)
      (call : ∀ id, instruction.calls id = false) (phi : instruction.isPhi = false) :
      Matches module module' f f' instruction instruction

namespace Render

variable {module module' : Module} {f f' : Function}

theorem operand_pair_inj {lhs rhs lhs' rhs' : Operand}
    (h : lhs.text.toList ++ ',' :: ' ' :: rhs.text.toList = lhs'.text.toList ++ ',' :: ' ' :: rhs'.text.toList) :
    lhs = lhs' ∧ rhs = rhs' := by
  obtain ⟨hLhs, hRest⟩ := Solid.cut h (solid_operand lhs) (solid_operand lhs') rfl
  exact ⟨operand_inj hLhs, operand_inj (List.cons.inj hRest).2⟩

theorem operands_inj {list list' : List Operand}
    (h : commas (list.map fun value => value.text.toList) = commas (list'.map fun value => value.text.toList)) :
    list = list' := by
  have hTexts : ∀ list : List Operand, ∀ text ∈ list.map (fun value => value.text.toList),
      text ≠ [] ∧ ',' ∉ text := by
    intro list text hText
    obtain ⟨value, -, rfl⟩ := List.mem_map.mp hText
    exact ⟨operand_ne_nil value, (solid_operand value).notMem rfl⟩
  exact List.map_injective_iff.mpr (fun _ _ => operand_inj) (commas_inj h (hTexts list) (hTexts list'))

theorem sources_inj {sources sources' : List (BlockId × Operand)}
    (h : commas (sources.map sourceText) = commas (sources'.map sourceText)) : sources = sources' := by
  have hTexts : ∀ sources : List (BlockId × Operand), ∀ text ∈ sources.map sourceText,
      text ≠ [] ∧ ',' ∉ text := by
    intro sources text hText
    obtain ⟨source, -, rfl⟩ := List.mem_map.mp hText
    have hBlock := (solid_block source.1).notMem (rfl : isSolid ',' = false)
    have hOperand := (solid_operand source.2).notMem (rfl : isSolid ',' = false)
    exact ⟨List.cons_ne_nil _ _, by simp [sourceText, hBlock, hOperand]⟩
  have hSource : Function.Injective sourceText := by
    rintro ⟨id, value⟩ ⟨id', value'⟩ hText
    obtain ⟨hBlock, hRest⟩ := Solid.cut (List.cons.inj hText).2 (solid_block id) (solid_block id') rfl
    have hValue := List.append_cancel_right (List.cons.inj hRest).2
    exact Prod.ext (block_inj hBlock) (operand_inj hValue)
  exact List.map_injective_iff.mpr hSource (commas_inj h (hTexts sources) (hTexts sources'))

theorem target_inj {id id' : RegisterId} (h : some id.text.toList = some id'.text.toList) : id = id' :=
  register_inj (Option.some.inj h)

theorem ret_inj {value value' : Option Operand}
    (h : rest module f (.ret value) = rest module' f' (.ret value')) : value = value' := by
  cases value with
  | none =>
    cases value' with
    | none => rfl
    | some value' => exact absurd h.symm (operand_ne_void value')
  | some value =>
    cases value' with
    | none => exact absurd h (operand_ne_void value)
    | some value' => rw [operand_inj h]

theorem solid_predicate (predicate : Predicate) : Solid predicate.mnemonic.toList := by
  cases predicate <;> decide

theorem predicate_inj {predicate predicate' : Predicate}
    (h : predicate.mnemonic.toList = predicate'.mnemonic.toList) : predicate = predicate' := by
  revert h
  cases predicate <;> cases predicate' <;> decide

theorem exists_of_isSome_bind {α β : Type} {value : Option α} {next : α → Option β}
    (h : (value.bind next).isSome = true) : ∃ a, value = some a := by
  cases value with
  | none => cases h
  | some a => exact ⟨a, rfl⟩

theorem alloca_matches {id : SlotId} (hRest : rest module f (.alloca id) = rest module' f' (.alloca id))
    (hShown : (instruction module f (.alloca id)).isSome = true)
    (hShown' : (instruction module' f' (.alloca id)).isSome = true) :
    Instruction.Matches module module' f f' (.alloca id) (.alloca id) := by
  obtain ⟨row, hRow⟩ := exists_of_isSome_bind hShown
  obtain ⟨row', hRow'⟩ := exists_of_isSome_bind hShown'
  simp only [rest, hRow, hRow', Option.elim] at hRest
  obtain ⟨hTy, hName⟩ := Solid.cut hRest (solid_ty row.ty) (solid_ty row'.ty) rfl
  simp only [List.cons.injEq, true_and] at hName
  obtain ⟨width, name⟩ := row
  obtain ⟨width', name'⟩ := row'
  obtain rfl := ty_inj hTy
  obtain rfl := String.toList_inj.mp hName
  exact .alloca hRow hRow'

theorem phi_matches {destination : RegisterId} {sources sources' : IdMap .block Operand}
    (hRest : rest module f (.phi destination sources) = rest module' f' (.phi destination sources'))
    (hShown : (instruction module f (.phi destination sources)).isSome = true)
    (hShown' : (instruction module' f' (.phi destination sources')).isSome = true) :
    Instruction.Matches module module' f f' (.phi destination sources) (.phi destination sources') := by
  obtain ⟨width, hWidth⟩ := exists_of_isSome_bind hShown
  obtain ⟨width', hWidth'⟩ := exists_of_isSome_bind hShown'
  simp only [rest, hWidth, hWidth', Option.elim] at hRest
  obtain ⟨hTy, hSources⟩ := Solid.cut hRest (solid_ty width) (solid_ty width') rfl
  obtain rfl := ty_inj hTy
  obtain ⟨entries⟩ := sources
  obtain ⟨entries'⟩ := sources'
  obtain rfl : entries = entries' := sources_inj hSources
  exact .phi _ hWidth hWidth'

/-- What is shown the same is the same, but for what the text leaves out. -/
theorem matches_of_parts {i i' : Instruction} (hTarget : target? i = target? i') (hOpcode : opcode i = opcode i')
    (hRest : rest module f i = rest module' f' i') (hShown : (instruction module f i).isSome = true)
    (hShown' : (instruction module' f' i').isSome = true)
    (hName : ∀ id, Solid (calleeName module id).toList) (hName' : ∀ id, Solid (calleeName module' id).toList) :
    i.Matches module module' f f' i' := by
  have hKind : i.ctorIdx = i'.ctorIdx := by rw [← kindOf_opcode, ← kindOf_opcode, hOpcode]
  cases i with
  | alloca id =>
    cases i' with
    | alloca id' =>
      obtain rfl : id = id' := slot_inj (Option.some.inj hTarget)
      exact alloca_matches hRest hShown hShown'
    | _ => cases hKind
  | load destination id =>
    cases i' with
    | load destination' id' =>
      rw [target_inj hTarget, slot_inj hRest]
      exact .same rfl (fun _ => rfl) rfl
    | _ => cases hKind
  | store id value =>
    cases i' with
    | store id' value' =>
      obtain ⟨hSlot, hValue⟩ := Solid.cut hRest (solid_slot id) (solid_slot id') rfl
      rw [slot_inj hSlot, operand_inj (List.cons.inj hValue).2]
      exact .same rfl (fun _ => rfl) rfl
    | _ => cases hKind
  | arith op destination lhs rhs =>
    cases i' with
    | arith op' destination' lhs' rhs' =>
      obtain ⟨rfl, rfl⟩ := operand_pair_inj hRest
      have hOp : op = op' := by
        revert hOpcode
        cases op <;> cases op' <;> simp [opcode, Arith.mnemonic]
      rw [target_inj hTarget, hOp]
      exact .same rfl (fun _ => rfl) rfl
    | _ => cases hKind
  | compare predicate destination lhs rhs =>
    cases i' with
    | compare predicate' destination' lhs' rhs' =>
      obtain ⟨hPredicate, hOperands⟩ := Solid.cut hRest (solid_predicate predicate) (solid_predicate predicate') rfl
      obtain ⟨rfl, rfl⟩ := operand_pair_inj hOperands
      rw [target_inj hTarget, predicate_inj hPredicate]
      exact .same rfl (fun _ => rfl) rfl
    | _ => cases hKind
  | extend destination value width =>
    cases i' with
    | extend destination' value' width' =>
      obtain ⟨hValue, hWidth⟩ := Solid.cut hRest (solid_operand value) (solid_operand value') rfl
      simp only [List.cons.injEq, true_and] at hWidth
      rw [target_inj hTarget, operand_inj hValue, ty_inj hWidth]
      exact .same rfl (fun _ => rfl) rfl
    | _ => cases hKind
  | call callee arguments destination =>
    cases i' with
    | call callee' arguments' destination' =>
      obtain ⟨hCallee, hArguments⟩ := Solid.cut (List.cons.inj hRest).2 (hName callee) (hName' callee') rfl
      have hList := operands_inj (List.append_cancel_right hArguments)
      have hDestination : destination = destination' := by
        apply Option.map_injective (fun _ _ => register_inj) hTarget
      rw [hList, hDestination]
      exact .call _ _ (String.toList_inj.mp hCallee)
    | _ => cases hKind
  | phi destination sources =>
    cases i' with
    | phi destination' sources' =>
      obtain rfl := target_inj hTarget
      exact phi_matches hRest hShown hShown'
    | _ => cases hKind
  | jump target =>
    cases i' with
    | jump target' =>
      rw [block_inj hRest]
      exact .same rfl (fun _ => rfl) rfl
    | _ => cases hKind
  | branch condition positive negative =>
    cases i' with
    | branch condition' positive' negative' =>
      obtain ⟨hCondition, hBlocks⟩ := Solid.cut hRest (solid_operand condition) (solid_operand condition') rfl
      obtain ⟨hPositive, hNegative⟩ :=
        Solid.cut (List.cons.inj hBlocks).2 (solid_block positive) (solid_block positive') rfl
      rw [operand_inj hCondition, block_inj hPositive, block_inj (List.cons.inj hNegative).2]
      exact .same rfl (fun _ => rfl) rfl
    | _ => cases hKind
  | ret value =>
    cases i' with
    | ret value' =>
      rw [ret_inj hRest]
      exact .same rfl (fun _ => rfl) rfl
    | _ => cases hKind

end Render
end Slate
