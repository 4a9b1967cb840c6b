import Slate.Ir.Verify
import Slate.Proofs.Tables

/-! # Well-formed modules

The rules of the intermediate form as a statement about modules, without an order of checks and
without reports, and the proof that verification accepts exactly the modules that keep them.
-/

namespace Slate
set_option autoImplicit false

def Operand.register? : Operand → Option RegisterId
  | .register id => some id
  | .const _ => none

namespace Instruction

/-- The registers that are read. -/
def reads (instruction : Instruction) : List RegisterId :=
  instruction.operands.filterMap Operand.register?

/-- The types of the operands are right. -/
def Typed (function : Function) : Instruction → Prop
  | .arith _ _ lhs rhs =>
    function.operandType? lhs = some .i32 ∧ function.operandType? rhs = some .i32
  | .compare _ _ lhs rhs => function.operandType? lhs = function.operandType? rhs
  | .store slot value =>
    ∀ row, function.slots.get? slot = some row → function.operandType? value = some row.ty
  | .branch condition .. => function.operandType? condition = some .i1
  | .phi destination sources =>
    ∀ value ∈ sources.values, function.operandType? value = function.registers.get? destination
  | .ret (some value) => function.operandType? value = some function.signature.result
  | _ => True

/-- Control stays in the function, a callee exists and takes as many arguments, a phi covers the
recorded predecessors of its block, and only a void function returns nothing. -/
def Placed (signature? : FunctionId → Option Signature) (function : Function)
    (predecessors : IdSet .block) : Instruction → Prop
  | .jump target => target.index < function.blocks.size
  | .branch _ positive negative =>
    positive.index < function.blocks.size ∧ negative.index < function.blocks.size
  | .phi _ sources => sources.keys = predecessors.ids
  | .call callee arguments _ =>
    ∃ signature, signature? callee = some signature ∧ signature.accepts arguments.length = true
  | .ret none => function.signature.result = .void
  | _ => True

/-- All rules for one instruction in a block with the given predecessors. -/
structure Fits (signature? : FunctionId → Option Signature) (function : Function)
    (predecessors : IdSet .block) (instruction : Instruction) : Prop where
  reads : ∀ id ∈ instruction.reads, id.index < function.registers.size
  writes : ∀ id, instruction.destination? = some id → id.index < function.registers.size
  slot : ∀ id, instruction.slot? = some id → id.index < function.slots.size
  typed : instruction.Typed function
  placed : instruction.Placed signature? function predecessors

/-- The last instruction, and no other, is a terminator. -/
def Closed (code : List Instruction) : Prop :=
  ∃ front last, code = front ++ [last] ∧ last.isTerminator = true ∧
    ∀ instruction ∈ front, instruction.isTerminator = false

/-- No phi stands behind another instruction. -/
def PhisFirst (code : List Instruction) : Prop :=
  ∀ instruction ∈ code.dropWhile isPhi, instruction.isPhi = false

theorem isTerminator_of_mem_targets {instruction : Instruction} {target : BlockId}
    (h : target ∈ instruction.targets) : instruction.isTerminator = true := by
  cases instruction with
  | jump _ | branch _ _ _ => rfl
  | alloca _ | load _ _ | store _ _ | arith _ _ _ _ | compare _ _ _ _ | extend _ _ _ | call _ _ _
  | phi _ _ | ret _ => cases h

end Instruction

/-- A function with a body that keeps all rules. -/
structure Function.WellFormed (signature? : FunctionId → Option Signature) (function : Function) :
    Prop where
  closed : ∀ id block, function.blocks.get? id = some block → Instruction.Closed block.code
  phisFirst : ∀ id block, function.blocks.get? id = some block → Instruction.PhisFirst block.code
  fits : ∀ id block, function.blocks.get? id = some block → ∀ instruction ∈ block.code,
    instruction.Fits signature? function block.predecessors
  sorted : ∀ id block, function.blocks.get? id = some block → block.predecessors.Sorted
  predecessors : ∀ id block, function.blocks.get? id = some block → ∀ source,
    source ∈ block.predecessors.ids ↔
      ∃ row, function.blocks.get? source = some row ∧ id ∈ row.successors

namespace Function

theorem isDeclaration_eq_true_iff (function : Function) :
    function.isDeclaration = true ↔ function.blocks.size = 0 := by
  rw [isDeclaration, Table.isEmpty_iff]

theorem isDeclaration_eq_false_iff (function : Function) :
    function.isDeclaration = false ↔ 0 < function.blocks.size := by
  rw [Bool.eq_false_iff, ne_eq, isDeclaration_eq_true_iff, Nat.pos_iff_ne_zero]

end Function

namespace Module

def signature? (module : Module) (id : FunctionId) : Option Signature :=
  (module.get? id).map Function.signature

/-- Functions without a body are left to the host, and the others keep all rules. -/
structure WellFormed (module : Module) : Prop where
  declaration : ∀ function ∈ module.functions.values, function.isDeclaration = true →
    function.linkage = .external
  body : ∀ function ∈ module.functions.values, function.isDeclaration = false →
    function.WellFormed module.signature?

end Module

namespace Verify
open Instruction

theorem expectTy_eq_nil_iff (expected actual : Ty) :
    expectTy expected actual = [] ↔ actual = expected := by
  rw [expectTy]
  split
  · rename_i hEq
    simp [hEq]
  · rename_i hNe
    simp [Ne.symm hNe]

theorem checkTarget_eq_nil_iff (function : Function) (target : BlockId) :
    checkTarget function target = [] ↔ target.index < function.blocks.size := by
  rw [checkTarget, ← Table.contains_iff]
  split <;> simp_all

theorem checkSlot_eq_nil_iff (function : Function) (instruction : Instruction) :
    checkSlot function instruction = [] ↔
      ∀ id, instruction.slot? = some id → id.index < function.slots.size := by
  rw [checkSlot]
  cases hSlot : instruction.slot? with
  | none => simp
  | some slot =>
    simp only [Option.some.injEq, forall_eq', ← Table.contains_iff]
    split <;> simp_all

theorem badRegister?_eq_none_iff (function : Function) (instruction : Instruction) :
    badRegister? function instruction = none ↔
      (∀ id ∈ instruction.reads, id.index < function.registers.size) ∧
      ∀ id, instruction.destination? = some id → id.index < function.registers.size := by
  have hFind : badRegister? function instruction =
      (instruction.reads ++ instruction.destination?.toList).find?
        fun id => !function.registers.contains id := by
    simp only [badRegister?, reads]
    congr
  rw [hFind, List.find?_eq_none]
  simp only [List.mem_append, Option.mem_toList, Bool.not_eq_eq_eq_not,
    Bool.not_true, Bool.not_eq_false, Table.contains_iff, or_imp, forall_and]

theorem operandType?_of_reads {function : Function} {instruction : Instruction}
    (hReads : ∀ id ∈ instruction.reads, id.index < function.registers.size) (value : Operand)
    (hValue : value ∈ instruction.operands) : ∃ ty, function.operandType? value = some ty := by
  cases value with
  | const value => exact ⟨value.ty, rfl⟩
  | register id => exact Table.exists_of_lt (hReads id (List.mem_filterMap.mpr ⟨_, hValue, rfl⟩))

theorem checkTypes_eq_nil_iff (function : Function) (instruction : Instruction)
    (hReads : ∀ id ∈ instruction.reads, id.index < function.registers.size)
    (hWrites : ∀ id, instruction.destination? = some id → id.index < function.registers.size) :
    checkTypes function instruction = [] ↔ instruction.Typed function := by
  cases instruction with
  | arith op destination lhs rhs =>
    obtain ⟨left, hLeft⟩ := operandType?_of_reads hReads lhs (by simp [operands])
    obtain ⟨right, hRight⟩ := operandType?_of_reads hReads rhs (by simp [operands])
    simp only [checkTypes, Typed, hLeft, hRight, Option.elim_some, List.append_eq_nil_iff,
      expectTy_eq_nil_iff, Option.some.injEq]
  | compare predicate destination lhs rhs =>
    obtain ⟨left, hLeft⟩ := operandType?_of_reads hReads lhs (by simp [operands])
    obtain ⟨right, hRight⟩ := operandType?_of_reads hReads rhs (by simp [operands])
    simp only [checkTypes, Typed, hLeft, hRight, expectTy_eq_nil_iff, Option.some.injEq]
    exact eq_comm
  | store slot value =>
    obtain ⟨actual, hActual⟩ := operandType?_of_reads hReads value (by simp [operands])
    simp only [checkTypes, Typed, hActual]
    cases function.slots.get? slot with
    | none => simp
    | some row => simp [expectTy_eq_nil_iff]
  | branch condition positive negative =>
    obtain ⟨actual, hActual⟩ := operandType?_of_reads hReads condition (by simp [operands])
    simp only [checkTypes, Typed, hActual]
    cases actual <;> simp
  | phi destination sources =>
    obtain ⟨expected, hExpected⟩ := Table.exists_of_lt (hWrites destination rfl)
    simp only [checkTypes, Typed, hExpected, List.flatMap_eq_nil_iff]
    refine forall₂_congr fun value hValue => ?_
    obtain ⟨actual, hActual⟩ := operandType?_of_reads hReads value hValue
    simp only [hActual, Option.elim_some, expectTy_eq_nil_iff, Option.some.injEq]
  | ret value =>
    cases value with
    | none => simp [checkTypes, Typed]
    | some value =>
      obtain ⟨actual, hActual⟩ := operandType?_of_reads hReads value (by simp [operands])
      simp only [checkTypes, Typed, hActual, Option.some.injEq]
      split
      · rename_i hResult
        simp [hResult]
      · rename_i hResult
        simp [Ne.symm hResult]
  | alloca _ | load _ _ | extend _ _ _ | call _ _ _ | jump _ => simp [checkTypes, Typed]

theorem checkShape_eq_nil_iff (module : Module) (function : Function) (block : Block)
    (instruction : Instruction) : checkShape module function block instruction = [] ↔
      instruction.Placed module.signature? function block.predecessors := by
  cases instruction with
  | jump target => exact checkTarget_eq_nil_iff function target
  | branch condition positive negative =>
    simp only [checkShape, Placed, List.append_eq_nil_iff, checkTarget_eq_nil_iff]
  | phi destination sources =>
    simp only [checkShape, Placed]
    split <;> simp_all
  | call callee arguments destination =>
    simp only [checkShape, Placed, Module.signature?]
    cases module.get? callee with
    | none => simp
    | some target =>
      simp only [Option.map_some, Option.some.injEq, exists_eq_left']
      split <;> simp_all
  | ret value =>
    cases value with
    | none =>
      simp only [checkShape, Placed]
      split <;> simp_all
    | some value => simp [checkShape, Placed]
  | alloca _ | load _ _ | store _ _ | arith _ _ _ _ | compare _ _ _ _ | extend _ _ _ =>
    simp [checkShape, Placed]

theorem checkInstruction_eq_nil_iff (module : Module) (function : Function) (block : Block)
    (instruction : Instruction) : checkInstruction module function block instruction = [] ↔
      instruction.Fits module.signature? function block.predecessors := by
  have hBad := badRegister?_eq_none_iff function instruction
  simp only [checkInstruction, List.append_eq_nil_iff, checkSlot_eq_nil_iff, checkShape_eq_nil_iff]
  cases hFound : badRegister? function instruction with
  | some id =>
    rw [hFound] at hBad
    simp only [Option.map_some, Option.toList_some, List.cons_ne_nil, false_and, false_iff]
    exact fun h => absurd (hBad.mpr ⟨h.reads, h.writes⟩) (by simp)
  | none =>
    obtain ⟨hReads, hWrites⟩ := hBad.mp hFound
    simp only [Option.map_none, Option.toList_none, true_and, Option.isNone_none, if_true,
      checkTypes_eq_nil_iff function instruction hReads hWrites]
    constructor
    · rintro ⟨⟨hSlot, hPlaced⟩, hTyped⟩
      exact ⟨hReads, hWrites, hSlot, hTyped, hPlaced⟩
    · intro h
      exact ⟨⟨h.slot, h.placed⟩, h.typed⟩

theorem phisFirst_cons_phi {first : Instruction} (h : first.isPhi = true) (rest : List Instruction) :
    PhisFirst (first :: rest) ↔ PhisFirst rest := by
  simp [PhisFirst, h]

theorem phisFirst_cons {first : Instruction} (h : first.isPhi = false) (rest : List Instruction) :
    PhisFirst (first :: rest) ↔ ∀ instruction ∈ rest, instruction.isPhi = false := by
  simp [PhisFirst, h]

theorem checkCode_eq_nil_iff (module : Module) (function : Function) (block : Block) (past : Bool)
    (code : List Instruction) : checkCode module function block past code = [] ↔
      (∀ instruction ∈ code, instruction.Fits module.signature? function block.predecessors) ∧
      (if past then ∀ instruction ∈ code, instruction.isPhi = false else PhisFirst code) := by
  induction code generalizing past with
  | nil => cases past <;> simp [checkCode, PhisFirst]
  | cons first rest ih =>
    simp only [checkCode, List.append_eq_nil_iff, checkInstruction_eq_nil_iff, ih,
      List.forall_mem_cons]
    cases hPhi : first.isPhi <;> cases past
    · simp [phisFirst_cons hPhi, and_assoc]
    · simp [and_assoc]
    · simp [phisFirst_cons_phi hPhi, and_assoc]
    · simp

theorem closed_iff (code : List Instruction) :
    (∃ last, code.getLast? = some last ∧ last.isTerminator = true) ∧
      code.dropLast.any Instruction.isTerminator = false ↔ Closed code := by
  simp only [List.any_eq_false, Bool.not_eq_true]
  constructor
  · rintro ⟨⟨last, hLast, hTerminator⟩, hFront⟩
    exact ⟨code.dropLast, last, (List.dropLast_append_getLast? last hLast).symm, hTerminator, hFront⟩
  · rintro ⟨front, last, rfl, hTerminator, hFront⟩
    exact ⟨⟨last, by simp, hTerminator⟩, by simpa using hFront⟩

theorem checkBlock_eq_nil_iff (module : Module) (function : Function) (block : Block) :
    checkBlock module function block = [] ↔ Closed block.code ∧ PhisFirst block.code ∧
      ∀ instruction ∈ block.code, instruction.Fits module.signature? function block.predecessors := by
  have hTerminator : block.terminator?.isSome = true ↔
      ∃ last, block.code.getLast? = some last ∧ last.isTerminator = true := by
    rw [Block.terminator?, Option.isSome_iff_exists]
    simp [Option.filter_eq_some_iff]
  rw [← closed_iff, ← hTerminator]
  simp only [checkBlock, List.append_eq_nil_iff, checkCode_eq_nil_iff, Bool.false_eq_true, if_false,
    ite_eq_left_iff, ite_eq_right_iff, List.cons_ne_nil, imp_false, Bool.not_eq_true,
    Bool.not_eq_false]
  exact and_congr_right fun _ => and_comm

theorem mem_actualPredecessors (function : Function) (id source : BlockId) :
    source ∈ (actualPredecessors function id).ids ↔
      ∃ row, function.blocks.get? source = some row ∧ id ∈ row.successors := by
  simp only [actualPredecessors, IdSet.mem_ofList, List.mem_map, List.mem_filter, Prod.exists,
    Table.mem_entries_iff, List.contains_iff_mem]
  constructor
  · rintro ⟨found, row, ⟨hRow, hMem⟩, rfl⟩
    exact ⟨row, hRow, hMem⟩
  · rintro ⟨row, hRow, hMem⟩
    exact ⟨source, row, ⟨hRow, hMem⟩, rfl⟩

theorem checkPredecessors_eq_nil_iff (function : Function) (id : BlockId) (block : Block) :
    checkPredecessors function id block = [] ↔ block.predecessors.Sorted ∧
      ∀ source, source ∈ block.predecessors.ids ↔
        ∃ row, function.blocks.get? source = some row ∧ id ∈ row.successors := by
  have hEmpty : checkPredecessors function id block = [] ↔
      block.predecessors = actualPredecessors function id := by
    simp only [checkPredecessors]
    split <;> simp_all
  rw [hEmpty]
  constructor
  · intro h
    rw [h]
    exact ⟨IdSet.sorted_ofList _, mem_actualPredecessors function id⟩
  · rintro ⟨hSorted, hMem⟩
    refine hSorted.ext (IdSet.sorted_ofList _) fun source => ?_
    rw [hMem, ← mem_actualPredecessors]

theorem located_eq_nil_iff (function : Function) (check : BlockId → Block → List Flaw) :
    located function check = [] ↔
      ∀ id block, function.blocks.get? id = some block → check id block = [] := by
  simp only [located, List.flatMap_eq_nil_iff, List.map_eq_nil_iff, Prod.forall,
    Table.mem_entries_iff]

theorem checkFunction_eq_nil_iff (module : Module) (function : Function) :
    checkFunction module function = [] ↔
      (function.isDeclaration = true → function.linkage = .external) ∧
      (function.isDeclaration = false → function.WellFormed module.signature?) := by
  rw [checkFunction]
  cases hDeclaration : function.isDeclaration with
  | true => cases hLinkage : function.linkage <;> simp
  | false =>
    simp only [Bool.false_eq_true, if_false, List.append_eq_nil_iff, located_eq_nil_iff,
      checkBlock_eq_nil_iff, checkPredecessors_eq_nil_iff, false_implies, true_and, true_implies]
    constructor
    · rintro ⟨hBlocks, hPredecessors⟩
      exact ⟨fun id block h => (hBlocks id block h).1, fun id block h => (hBlocks id block h).2.1,
        fun id block h => (hBlocks id block h).2.2, fun id block h => (hPredecessors id block h).1,
        fun id block h => (hPredecessors id block h).2⟩
    · intro h
      exact ⟨fun id block hBlock => ⟨h.closed id block hBlock, h.phisFirst id block hBlock,
          h.fits id block hBlock⟩,
        fun id block hBlock => ⟨h.sorted id block hBlock, h.predecessors id block hBlock⟩⟩

end Verify

theorem Module.verify_eq_nil_iff (module : Module) : module.verify = [] ↔ module.WellFormed := by
  simp only [Module.verify, List.flatMap_eq_nil_iff, Verify.checkFunction_eq_nil_iff]
  constructor
  · intro h
    exact ⟨fun function hMem => (h function hMem).1, fun function hMem => (h function hMem).2⟩
  · intro h function hMem
    exact ⟨h.declaration function hMem, h.body function hMem⟩

end Slate
