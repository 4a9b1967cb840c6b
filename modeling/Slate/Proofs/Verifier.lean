import Slate.Proofs.Lists
import Slate.Proofs.WellFormed

/-! # What verification decides

`Module.Conforms` lists the rules of the intermediate form one by one, for each form of an instruction, with sets in
place of sorted lists. Verification accepts a module just if it keeps all of them, and every type it asks for
on the way is there, whatever the module is.
-/

namespace Slate
set_option autoImplicit false

namespace Verify

/-- The check of types, where a type that is not there ends it. -/
def checkTypes? (function : Function) : Instruction → Option (List Flaw)
  | .arith _ _ lhs rhs => do
    return expectTy .i32 (← function.operandType? lhs) ++ expectTy .i32 (← function.operandType? rhs)
  | .compare _ _ lhs rhs => do
    return expectTy (← function.operandType? lhs) (← function.operandType? rhs)
  | .store slot value =>
    match function.slots.get? slot with
    | some slot => do return expectTy slot.ty (← function.operandType? value)
    | none => return []
  | .branch condition .. => do
    let actual ← function.operandType? condition
    return if actual = .i1 then [] else [.nonBoolCondition actual]
  | .phi destination sources => do
    let expected ← function.registers.get? destination
    let flaws ← sources.values.mapM fun value => do return expectTy expected (← function.operandType? value)
    return flaws.flatten
  | .ret (some value) => do
    let actual ← function.operandType? value
    return if function.signature.result = actual then []
      else [.returnTypeMismatch function.signature.result actual]
  | _ => return []

def checkInstruction? (module : Module) (function : Function) (block : Block)
    (instruction : Instruction) : Option (List Flaw) := do
  let bad := badRegister? function instruction
  let types ← if bad.isNone then checkTypes? function instruction else some []
  return (bad.map Flaw.invalidRegister).toList ++ checkSlot function instruction ++
    checkShape module function block instruction ++ types

def checkCode? (module : Module) (function : Function) (block : Block) :
    Bool → List Instruction → Option (List Flaw)
  | _, [] => return []
  | past, instruction :: rest => do
    let flaws ← checkInstruction? module function block instruction
    let others ← checkCode? module function block (past || !instruction.isPhi) rest
    return (if instruction.isPhi && past then [.phiNotAtStart] else []) ++ flaws ++ others

def checkBlock? (module : Module) (function : Function) (block : Block) : Option (List Flaw) := do
  let flaws ← checkCode? module function block false block.code
  return (if block.terminator?.isSome then [] else [.missingTerminator]) ++
    (if block.code.dropLast.any Instruction.isTerminator then [.instructionAfterTerminator]
      else []) ++ flaws

def checkFunction? (module : Module) (function : Function) : Option (List VerifyError) :=
  if function.isDeclaration then
    return if function.linkage = .internal then [.missingBody function.name] else []
  else do
    let flaws ← function.blocks.entries.mapM fun (id, block) => do
      return (← checkBlock? module function block).map (VerifyError.inBlock function.name id)
    return flaws.flatten ++ located function (checkPredecessors function)

end Verify

/-- Verification that ends without a list of violations if it asks for a type that is not there. -/
def Module.verify? (module : Module) : Option (List VerifyError) := do
  let errors ← module.functions.values.mapM (Verify.checkFunction? module)
  return errors.flatten

namespace Verify

/-- Types of registers that exist are there. -/
theorem checkTypes?_eq (function : Function) {instruction : Instruction}
    (hReads : ∀ id ∈ instruction.reads, id.index < function.registers.size)
    (hWrites : ∀ id, instruction.destination? = some id → id.index < function.registers.size) :
    checkTypes? function instruction = some (checkTypes function instruction) := by
  have hTypes := operandType?_of_reads hReads
  cases instruction with
  | arith op destination lhs rhs =>
    obtain ⟨left, hLeft⟩ := hTypes lhs List.mem_cons_self
    obtain ⟨right, hRight⟩ := hTypes rhs (List.mem_cons_of_mem _ List.mem_cons_self)
    rw [checkTypes?, checkTypes, hLeft, hRight]
    rfl
  | compare predicate destination lhs rhs =>
    obtain ⟨left, hLeft⟩ := hTypes lhs List.mem_cons_self
    obtain ⟨right, hRight⟩ := hTypes rhs (List.mem_cons_of_mem _ List.mem_cons_self)
    rw [checkTypes?, checkTypes, hLeft, hRight]
    rfl
  | store slot value =>
    obtain ⟨ty, hTy⟩ := hTypes value List.mem_cons_self
    rw [checkTypes?, checkTypes, hTy]
    cases function.slots.get? slot <;> rfl
  | branch condition positive negative =>
    obtain ⟨ty, hTy⟩ := hTypes condition List.mem_cons_self
    rw [checkTypes?, checkTypes, hTy]
    cases ty <;> rfl
  | phi destination sources =>
    obtain ⟨expected, hExpected⟩ := Table.exists_of_lt (hWrites destination rfl)
    have hValues : ∀ value ∈ sources.values,
        (do return expectTy expected (← function.operandType? value)) =
          some ((function.operandType? value).elim [] (expectTy expected)) := by
      intro value hValue
      obtain ⟨ty, hTy⟩ := hTypes value hValue
      rw [hTy]
      rfl
    rw [checkTypes?, checkTypes, hExpected]
    change (sources.values.mapM fun value => do
      return expectTy expected (← function.operandType? value)) >>= _ = some (sources.values.flatMap _)
    rw [mapM_eq_some_map hValues, List.flatMap_def]
    rfl
  | ret value =>
    cases value with
    | none => rfl
    | some value =>
      obtain ⟨ty, hTy⟩ := hTypes value List.mem_cons_self
      rw [checkTypes?, checkTypes, hTy]
      rfl
  | alloca | load | extend | call | jump => rfl

theorem checkInstruction?_eq (module : Module) (function : Function) (block : Block)
    (instruction : Instruction) : checkInstruction? module function block instruction =
      some (checkInstruction module function block instruction) := by
  rw [checkInstruction?, checkInstruction]
  cases hBad : badRegister? function instruction with
  | some id => rfl
  | none =>
    obtain ⟨hReads, hWrites⟩ := (badRegister?_eq_none_iff function instruction).mp hBad
    dsimp only [Option.isNone_none]
    rw [if_pos rfl, if_pos rfl, checkTypes?_eq function hReads hWrites]
    rfl

theorem checkCode?_eq (module : Module) (function : Function) (block : Block) (past : Bool)
    (code : List Instruction) : checkCode? module function block past code =
      some (checkCode module function block past code) := by
  induction code generalizing past with
  | nil => rfl
  | cons instruction rest ih =>
    rw [checkCode?, checkInstruction?_eq, ih, checkCode]
    rfl

theorem checkBlock?_eq (module : Module) (function : Function) (block : Block) :
    checkBlock? module function block = some (checkBlock module function block) := by
  rw [checkBlock?, checkCode?_eq]
  rfl

theorem checkFunction?_eq (module : Module) (function : Function) :
    checkFunction? module function = some (checkFunction module function) := by
  rw [checkFunction?, checkFunction]
  split
  · rfl
  · have hBlocks : ∀ entry ∈ function.blocks.entries,
        (do return (← checkBlock? module function entry.2).map (VerifyError.inBlock function.name entry.1)) =
          some ((checkBlock module function entry.2).map (VerifyError.inBlock function.name entry.1)) := by
      intro entry _
      rw [checkBlock?_eq]
      rfl
    change (function.blocks.entries.mapM fun entry => do
      return (← checkBlock? module function entry.2).map (VerifyError.inBlock function.name entry.1)) >>= _ = _
    rw [mapM_eq_some_map hBlocks, located, List.flatMap_def]
    rfl

end Verify

theorem Module.verify?_eq (module : Module) : module.verify? = some module.verify := by
  rw [Module.verify?, mapM_eq_some_map fun function _ => Verify.checkFunction?_eq module function,
    Module.verify, List.flatMap_def]
  rfl

instance {kind : IdKind} (set : IdSet kind) : Decidable set.Sorted :=
  inferInstanceAs (Decidable (set.ids.Pairwise fun a b => a.index < b.index))

instance {kind : IdKind} {α : Type} (map : IdMap kind α) : Decidable map.Sorted :=
  inferInstanceAs (Decidable (map.entries.Pairwise fun a b => a.1.index < b.1.index))

def Instruction.Ordered : Instruction → Prop
  | .phi _ sources => sources.Sorted
  | _ => True

instance : (instruction : Instruction) → Decidable instruction.Ordered
  | .phi _ sources => inferInstanceAs (Decidable sources.Sorted)
  | .alloca .. | .load .. | .store .. | .arith .. | .compare .. | .extend .. | .call .. | .jump ..
  | .branch .. | .ret .. => isTrue trivial

/-! ## The rules -/

/-- The types of operands; a register has one if it exists. -/
inductive Operand.HasTy (f : Function) : Operand → Ty → Prop
  | word (word : Word) : HasTy f (.const (.int word)) .i32
  | bit (bit : Bool) : HasTy f (.const (.bool bit)) .i1
  | register (id : RegisterId) (ty : Ty) (found : f.registers.get? id = some ty) : HasTy f (.register id) ty

namespace Instruction

/-- The instructions that end a block. -/
inductive Ends : Instruction → Prop
  | jump (target : BlockId) : Ends (.jump target)
  | branch (condition : Operand) (positive negative : BlockId) : Ends (.branch condition positive negative)
  | ret (value : Option Operand) : Ends (.ret value)

inductive Merges : Instruction → Prop
  | phi (destination : RegisterId) (sources : IdMap .block Operand) : Merges (.phi destination sources)

inductive LeadsTo (target : BlockId) : Instruction → Prop
  | jump : LeadsTo target (.jump target)
  | positive (condition : Operand) (negative : BlockId) : LeadsTo target (.branch condition target negative)
  | negative (condition : Operand) (positive : BlockId) : LeadsTo target (.branch condition positive target)

/-- The rules for an instruction in a block of a function. -/
def Lawful (module : Module) (f : Function) (block : Block) : Instruction → Prop
  | .alloca slot => slot.index < f.slots.size
  | .load destination slot => destination.index < f.registers.size ∧ slot.index < f.slots.size
  | .store slot value => ∃ row, f.slots.get? slot = some row ∧ value.HasTy f row.ty
  | .arith _ destination lhs rhs =>
    destination.index < f.registers.size ∧ lhs.HasTy f .i32 ∧ rhs.HasTy f .i32
  | .compare _ destination lhs rhs =>
    destination.index < f.registers.size ∧ ∃ ty, lhs.HasTy f ty ∧ rhs.HasTy f ty
  | .extend destination operand _ => destination.index < f.registers.size ∧ ∃ ty, operand.HasTy f ty
  | .call callee arguments destination =>
    (∀ id, destination = some id → id.index < f.registers.size) ∧
      (∀ argument ∈ arguments, ∃ ty, argument.HasTy f ty) ∧
      ∃ g, module.functions.get? callee = some g ∧
        if g.signature.variadic then g.signature.parameters.length ≤ arguments.length
        else arguments.length = g.signature.parameters.length
  | .phi destination sources =>
    (∀ source, (∃ value, (source, value) ∈ sources.entries) ↔ source ∈ block.predecessors.ids) ∧
      ∃ ty, f.registers.get? destination = some ty ∧ ∀ entry ∈ sources.entries, entry.2.HasTy f ty
  | .jump target => target.index < f.blocks.size
  | .branch condition positive negative =>
    condition.HasTy f .i1 ∧ positive.index < f.blocks.size ∧ negative.index < f.blocks.size
  | .ret (some value) => value.HasTy f f.signature.result
  | .ret none => f.signature.result = .void

end Instruction

/-- The rules for a function with a body. -/
structure Function.Conforms (module : Module) (f : Function) : Prop where
  /-- Every block ends with its only terminator. -/
  ends : ∀ id block, f.blocks.get? id = some block → ∃ front last, block.code = front ++ [last] ∧
    last.Ends ∧ ∀ instruction ∈ front, ¬ instruction.Ends
  phis : ∀ id block, f.blocks.get? id = some block → ∃ front rest, block.code = front ++ rest ∧
    (∀ instruction ∈ front, instruction.Merges) ∧ ∀ instruction ∈ rest, ¬ instruction.Merges
  lawful : ∀ id block, f.blocks.get? id = some block → ∀ instruction ∈ block.code,
    instruction.Lawful module f block
  predecessors : ∀ id block, f.blocks.get? id = some block → ∀ source,
    source ∈ block.predecessors.ids ↔ ∃ row last, f.blocks.get? source = some row ∧
      row.code.getLast? = some last ∧ last.LeadsTo id

/-- The rules of the intermediate form. -/
structure Module.Conforms (module : Module) : Prop where
  declaration : ∀ id f, (id, f) ∈ module.functions.entries → f.blocks.size = 0 → f.linkage = .external
  body : ∀ id f, (id, f) ∈ module.functions.entries → 0 < f.blocks.size → f.Conforms module

/-- Sets of blocks and sources of phis are in increasing order, as they are if built by `insert`. -/
def Function.Ordered (f : Function) : Prop := ∀ block ∈ f.blocks.toList, block.predecessors.Sorted ∧
  ∀ instruction ∈ block.code, instruction.Ordered

instance (f : Function) : Decidable f.Ordered :=
  inferInstanceAs (Decidable (∀ block ∈ f.blocks.toList, block.predecessors.Sorted ∧
    ∀ instruction ∈ block.code, instruction.Ordered))

/-! ## The rules and the checks -/

theorem Operand.hasTy_iff (f : Function) (operand : Operand) (ty : Ty) :
    operand.HasTy f ty ↔ f.operandType? operand = some ty := by
  constructor
  · intro h
    cases h with
    | word word => rfl
    | bit bit => rfl
    | register id ty hFound => exact hFound
  · intro h
    cases operand with
    | register id => exact .register id ty h
    | const value =>
      cases value with
      | int word =>
        cases h
        exact .word word
      | bool bit =>
        cases h
        exact .bit bit

namespace Instruction

theorem ends_iff (instruction : Instruction) : instruction.Ends ↔ instruction.isTerminator = true := by
  cases instruction with
  | jump target => exact iff_of_true (.jump target) rfl
  | branch condition positive negative => exact iff_of_true (.branch condition positive negative) rfl
  | ret value => exact iff_of_true (.ret value) rfl
  | alloca | load | store | arith | compare | extend | call | phi =>
    exact iff_of_false (fun h => by cases h) Bool.false_ne_true

theorem merges_iff (instruction : Instruction) : instruction.Merges ↔ instruction.isPhi = true := by
  cases instruction with
  | phi destination sources => exact iff_of_true (.phi destination sources) rfl
  | alloca | load | store | arith | compare | extend | call | jump | branch | ret =>
    exact iff_of_false (fun h => by cases h) Bool.false_ne_true

theorem leadsTo_iff (target : BlockId) (instruction : Instruction) :
    instruction.LeadsTo target ↔ target ∈ instruction.targets := by
  constructor
  · intro h
    cases h with
    | jump => exact List.mem_cons_self
    | positive condition negative => exact List.mem_cons_self
    | negative condition positive => exact List.mem_cons_of_mem _ List.mem_cons_self
  · intro h
    cases instruction with
    | jump found =>
      cases List.mem_singleton.mp h
      exact .jump
    | branch condition positive negative =>
      rcases List.mem_cons.mp h with rfl | h
      · exact .positive condition negative
      · cases List.mem_singleton.mp h
        exact .negative condition positive
    | alloca | load | store | arith | compare | extend | call | phi | ret => cases h

theorem closed_iff_ends (code : List Instruction) : Closed code ↔ ∃ front last, code = front ++ [last] ∧
    last.Ends ∧ ∀ instruction ∈ front, ¬ instruction.Ends := by
  simp only [Closed, ends_iff, Bool.not_eq_true]

theorem phisFirst_iff_merges (code : List Instruction) : PhisFirst code ↔ ∃ front rest, code = front ++ rest ∧
    (∀ instruction ∈ front, instruction.Merges) ∧ ∀ instruction ∈ rest, ¬ instruction.Merges := by
  simp only [merges_iff, Bool.not_eq_true]
  constructor
  · intro h
    exact ⟨_, _, List.takeWhile_append_dropWhile.symm, fun _ hMem => List.mem_takeWhile_imp hMem, h⟩
  · rintro ⟨front, rest, rfl, hFront, hRest⟩
    rw [PhisFirst, List.dropWhile_append_of_pos hFront]
    exact fun instruction hMem => hRest instruction ((List.dropWhile_suffix _).subset hMem)

end Instruction

theorem Block.mem_successors_iff_leadsTo (block : Block) (target : BlockId) : target ∈ block.successors ↔
    ∃ last, block.code.getLast? = some last ∧ last.LeadsTo target := by
  rw [successors, terminator?]
  cases hLast : block.code.getLast? with
  | none => simp
  | some last =>
    simp only [Option.some.injEq, exists_eq_left', Instruction.leadsTo_iff]
    cases hEnds : last.isTerminator with
    | true => simp [Option.filter, hEnds]
    | false =>
      have hNone : target ∉ last.targets := by
        intro hMem
        rw [Instruction.isTerminator_of_mem_targets hMem] at hEnds
        cases hEnds
      simp [Option.filter, hEnds, hNone]

theorem Signature.accepts_iff (signature : Signature) (given : Nat) : signature.accepts given = true ↔
    if signature.variadic then signature.parameters.length ≤ given
    else given = signature.parameters.length := by
  rw [Signature.accepts]
  split <;> exact decide_eq_true_iff

namespace Instruction

variable {module : Module} {f : Function} {block : Block} {instruction : Instruction}

/-- Operands with types are registers that exist. -/
theorem reads_of_hasTy (h : ∀ operand ∈ instruction.operands, ∃ ty, operand.HasTy f ty) :
    ∀ id ∈ instruction.reads, id.index < f.registers.size := by
  intro id hId
  obtain ⟨operand, hOperand, hRegister⟩ := List.mem_filterMap.mp hId
  obtain ⟨ty, hTy⟩ := h operand hOperand
  cases operand with
  | const value => cases hRegister
  | register found =>
    cases hRegister
    exact Table.lt_of_get? ((Operand.hasTy_iff f _ ty).mp hTy)

theorem Fits.hasTy (h : instruction.Fits module.signature? f block.predecessors) :
    ∀ operand ∈ instruction.operands, ∃ ty, operand.HasTy f ty := by
  intro operand hOperand
  obtain ⟨ty, hTy⟩ := Verify.operandType?_of_reads h.reads operand hOperand
  exact ⟨ty, (Operand.hasTy_iff f operand ty).mpr hTy⟩

theorem Fits.lawful (h : instruction.Fits module.signature? f block.predecessors) :
    instruction.Lawful module f block := by
  have hTypes := h.hasTy
  obtain ⟨-, hWrites, hSlot, hTyped, hPlaced⟩ := h
  have hIs := Operand.hasTy_iff f
  cases instruction with
  | alloca slot => exact hSlot slot rfl
  | load destination slot => exact ⟨hWrites destination rfl, hSlot slot rfl⟩
  | store slot value =>
    obtain ⟨row, hRow⟩ := Table.exists_of_lt (hSlot slot rfl)
    exact ⟨row, hRow, (hIs value row.ty).mpr (hTyped row hRow)⟩
  | arith op destination lhs rhs =>
    exact ⟨hWrites destination rfl, (hIs lhs .i32).mpr hTyped.1, (hIs rhs .i32).mpr hTyped.2⟩
  | compare predicate destination lhs rhs =>
    obtain ⟨ty, hTy⟩ := hTypes lhs List.mem_cons_self
    refine ⟨hWrites destination rfl, ty, hTy, (hIs rhs ty).mpr ?_⟩
    exact (show f.operandType? lhs = f.operandType? rhs from hTyped).symm.trans ((hIs lhs ty).mp hTy)
  | extend destination operand ty => exact ⟨hWrites destination rfl, hTypes operand List.mem_cons_self⟩
  | call callee arguments destination =>
    obtain ⟨signature, hSignature, hAccepts⟩ := hPlaced
    obtain ⟨g, hFound, rfl⟩ := Option.map_eq_some_iff.mp hSignature
    exact ⟨fun id hId => hWrites id hId, hTypes, g, hFound, (Signature.accepts_iff _ _).mp hAccepts⟩
  | phi destination sources =>
    obtain ⟨ty, hTy⟩ := Table.exists_of_lt (hWrites destination rfl)
    refine ⟨fun source => ?_, ty, hTy, fun entry hEntry => ?_⟩
    · rw [← show sources.keys = block.predecessors.ids from hPlaced]
      simp [IdMap.keys]
    · have hValue : entry.2 ∈ sources.values := List.mem_map_of_mem hEntry
      exact (hIs entry.2 ty).mpr ((hTyped entry.2 hValue).trans hTy)
  | jump target => exact hPlaced
  | branch condition positive negative => exact ⟨(hIs condition .i1).mpr hTyped, hPlaced⟩
  | ret value =>
    cases value with
    | none => exact hPlaced
    | some value => exact (hIs value _).mpr hTyped

theorem Lawful.hasTy (h : instruction.Lawful module f block) :
    ∀ operand ∈ instruction.operands, ∃ ty, operand.HasTy f ty := by
  cases instruction with
  | store slot value =>
    obtain ⟨row, -, hTy⟩ := h
    exact List.forall_mem_singleton.mpr ⟨row.ty, hTy⟩
  | arith op destination lhs rhs =>
    obtain ⟨-, hLeft, hRight⟩ := h
    exact List.forall_mem_cons.mpr ⟨⟨_, hLeft⟩, List.forall_mem_singleton.mpr ⟨_, hRight⟩⟩
  | compare predicate destination lhs rhs =>
    obtain ⟨-, ty, hLeft, hRight⟩ := h
    exact List.forall_mem_cons.mpr ⟨⟨ty, hLeft⟩, List.forall_mem_singleton.mpr ⟨ty, hRight⟩⟩
  | extend destination operand ty => exact List.forall_mem_singleton.mpr h.2
  | call callee arguments destination => exact h.2.1
  | phi destination sources =>
    obtain ⟨-, ty, -, hValues⟩ := h
    intro value hValue
    obtain ⟨entry, hEntry, rfl⟩ := List.mem_map.mp hValue
    exact ⟨ty, hValues entry hEntry⟩
  | branch condition positive negative => exact List.forall_mem_singleton.mpr ⟨_, h.1⟩
  | ret value =>
    cases value with
    | none => exact List.forall_mem_nil _
    | some value => exact List.forall_mem_singleton.mpr ⟨_, h⟩
  | alloca | load | jump => exact List.forall_mem_nil _

theorem Lawful.writes (h : instruction.Lawful module f block) :
    ∀ id, instruction.destination? = some id → id.index < f.registers.size := by
  intro id hId
  cases instruction with
  | load destination slot | arith op destination lhs rhs | compare predicate destination lhs rhs
  | extend destination operand ty =>
    cases hId
    exact h.1
  | call callee arguments destination => exact h.1 id hId
  | phi destination sources =>
    cases hId
    obtain ⟨-, ty, hTy, -⟩ := h
    exact Table.lt_of_get? hTy
  | alloca | store | jump | branch | ret => cases hId

theorem Lawful.slot (h : instruction.Lawful module f block) :
    ∀ id, instruction.slot? = some id → id.index < f.slots.size := by
  intro id hId
  cases instruction with
  | alloca slot =>
    cases hId
    exact h
  | load destination slot =>
    cases hId
    exact h.2
  | store slot value =>
    cases hId
    obtain ⟨row, hRow, -⟩ := h
    exact Table.lt_of_get? hRow
  | arith | compare | extend | call | phi | jump | branch | ret => cases hId

theorem Lawful.typed (h : instruction.Lawful module f block) : instruction.Typed f := by
  have hIs := Operand.hasTy_iff f
  cases instruction with
  | store slot value =>
    obtain ⟨row, hRow, hTy⟩ := h
    intro found hFound
    cases hRow.symm.trans hFound
    exact (hIs value row.ty).mp hTy
  | arith op destination lhs rhs => exact ⟨(hIs lhs _).mp h.2.1, (hIs rhs _).mp h.2.2⟩
  | compare predicate destination lhs rhs =>
    obtain ⟨-, ty, hLeft, hRight⟩ := h
    exact ((hIs lhs ty).mp hLeft).trans ((hIs rhs ty).mp hRight).symm
  | phi destination sources =>
    obtain ⟨-, ty, hTy, hValues⟩ := h
    intro value hValue
    obtain ⟨entry, hEntry, rfl⟩ := List.mem_map.mp hValue
    exact ((hIs entry.2 ty).mp (hValues entry hEntry)).trans hTy.symm
  | branch condition positive negative => exact (hIs condition _).mp h.1
  | ret value =>
    cases value with
    | none => exact trivial
    | some value => exact (hIs value _).mp h
  | alloca | load | extend | call | jump => exact trivial

/-- In sorted lists, the sources of a phi are the predecessors if they are the same blocks. -/
theorem Lawful.placed (h : instruction.Lawful module f block) (hSorted : block.predecessors.Sorted)
    (hOrdered : instruction.Ordered) : instruction.Placed module.signature? f block.predecessors := by
  cases instruction with
  | call callee arguments destination =>
    obtain ⟨-, -, g, hFound, hArity⟩ := h
    exact ⟨g.signature, congrArg (Option.map Function.signature) hFound, (Signature.accepts_iff _ _).mpr hArity⟩
  | phi destination sources =>
    have hKeys : ∀ source, source ∈ sources.keys ↔ source ∈ block.predecessors.ids := by
      intro source
      rw [← h.1 source]
      simp [IdMap.keys]
    exact congrArg IdSet.ids (((IdMap.sorted_iff_keys sources).mp hOrdered).ext hSorted hKeys)
  | jump target => exact h
  | branch condition positive negative => exact h.2
  | ret value =>
    cases value with
    | none => exact h
    | some value => exact trivial
  | alloca | load | store | arith | compare | extend => exact trivial

theorem Lawful.fits (h : instruction.Lawful module f block) (hSorted : block.predecessors.Sorted)
    (hOrdered : instruction.Ordered) : instruction.Fits module.signature? f block.predecessors :=
  ⟨reads_of_hasTy h.hasTy, h.writes, h.slot, h.typed, h.placed hSorted hOrdered⟩

end Instruction

namespace Function

variable {module : Module} {f : Function}

theorem predecessors_iff (f : Function) (id source : BlockId) :
    (∃ row, f.blocks.get? source = some row ∧ id ∈ row.successors) ↔
      ∃ row last, f.blocks.get? source = some row ∧ row.code.getLast? = some last ∧ last.LeadsTo id := by
  simp only [Block.mem_successors_iff_leadsTo, exists_and_left]

theorem WellFormed.conforms (h : f.WellFormed module.signature?) : f.Conforms module where
  ends id block hId := (Instruction.closed_iff_ends _).mp (h.closed id block hId)
  phis id block hId := (Instruction.phisFirst_iff_merges _).mp (h.phisFirst id block hId)
  lawful id block hId instruction hMem := (h.fits id block hId instruction hMem).lawful
  predecessors id block hId source := (h.predecessors id block hId source).trans (f.predecessors_iff id source)

theorem Conforms.wellFormed (h : f.Conforms module) (hOrdered : f.Ordered) :
    f.WellFormed module.signature? := by
  have hSorted : ∀ id block, f.blocks.get? id = some block → block.predecessors.Sorted ∧
      ∀ instruction ∈ block.code, instruction.Ordered :=
    fun id block hId => hOrdered block ((Table.mem_toList_iff _ _).mpr ⟨id, hId⟩)
  refine ⟨fun id block hId => (Instruction.closed_iff_ends _).mpr (h.ends id block hId),
    fun id block hId => (Instruction.phisFirst_iff_merges _).mpr (h.phis id block hId), ?_,
    fun id block hId => (hSorted id block hId).1,
    fun id block hId source => (h.predecessors id block hId source).trans (f.predecessors_iff id source).symm⟩
  intro id block hId instruction hMem
  obtain ⟨hPredecessors, hCode⟩ := hSorted id block hId
  exact (h.lawful id block hId instruction hMem).fits hPredecessors (hCode instruction hMem)

end Function

namespace Module

/-- Verification decides the rules: it never asks for a type that is not there, and finds no violation just if
there is none. -/
theorem verify_iff_conforms (module : Module) (hOrdered : ∀ f ∈ module.functions.values, f.Ordered) :
    module.verify? = some module.verify ∧ (module.verify = [] ↔ module.Conforms) := by
  have hMem : ∀ id f, (id, f) ∈ module.functions.entries → f ∈ module.functions.values :=
    fun id f hEntry => List.mem_map_of_mem hEntry
  refine ⟨module.verify?_eq, module.verify_eq_nil_iff.trans ⟨fun h => ⟨?_, ?_⟩, fun h => ⟨?_, ?_⟩⟩⟩
  · intro id f hEntry hEmpty
    exact h.declaration f (hMem id f hEntry) (f.isDeclaration_eq_true_iff.mpr hEmpty)
  · intro id f hEntry hBody
    exact (h.body f (hMem id f hEntry) (f.isDeclaration_eq_false_iff.mpr hBody)).conforms
  · intro f hValue hDeclaration
    obtain ⟨entry, hEntry, rfl⟩ := List.mem_map.mp hValue
    exact h.declaration entry.1 entry.2 hEntry (entry.2.isDeclaration_eq_true_iff.mp hDeclaration)
  · intro f hValue hBody
    have hRules := hOrdered f hValue
    obtain ⟨entry, hEntry, rfl⟩ := List.mem_map.mp hValue
    exact (h.body entry.1 entry.2 hEntry (entry.2.isDeclaration_eq_false_iff.mp hBody)).wellFormed hRules

/-- A function that gives 1 or 2, as its argument says. -/
def choice : Module where
  name := "m"
  functions := .ofList [(⟨0⟩, {
    name := "choose"
    signature := .ofArity 1
    linkage := .external
    registers := .ofList [.i32, .i1, .i32]
    parameters := [⟨0⟩]
    blocks := .ofList [
      { label := "entry"
        code := [.compare .ne ⟨1⟩ (.register ⟨0⟩) (.const (.int 0)), .branch (.register ⟨1⟩) ⟨1⟩ ⟨2⟩] },
      { label := "then", code := [.jump ⟨3⟩], predecessors := .ofList [⟨0⟩] },
      { label := "else", code := [.jump ⟨3⟩], predecessors := .ofList [⟨0⟩] },
      { label := "merge"
        code := [.phi ⟨2⟩ (.ofList [(⟨1⟩, .const (.int 1)), (⟨2⟩, .const (.int 2))]),
          .ret (some (.register ⟨2⟩))]
        predecessors := .ofList [⟨1⟩, ⟨2⟩] }] })]

theorem verify_iff_conforms_choice :
    (∀ f ∈ choice.functions.values, f.Ordered) ∧ choice.verify? = some [] ∧ choice.Conforms := by
  have hOrdered : ∀ f ∈ choice.functions.values, f.Ordered := by decide +kernel
  have hVerify : choice.verify = [] := by decide +kernel
  obtain ⟨hTotal, hIff⟩ := verify_iff_conforms choice hOrdered
  exact ⟨hOrdered, hVerify ▸ hTotal, hIff.mp hVerify⟩

end Module

end Slate
