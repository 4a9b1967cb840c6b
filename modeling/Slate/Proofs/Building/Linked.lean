import Mathlib
import Slate.Proofs.Building.Regular
import Slate.Proofs.WellFormed

/-! # References in built modules

After every history of a builder, calls lead to functions of the module, jumps and branches lead to blocks of
their function, and the recorded predecessors of a block are the blocks with an instruction that leads to it.
An edge is recorded for each such instruction, wherever it stands in its block, so records can differ from
what verification finds only where a block goes on behind a terminator.
-/

namespace Slate
set_option autoImplicit false

namespace Instruction

theorem targets_of_destination? {instruction : Instruction} {register : RegisterId}
    (h : instruction.destination? = some register) : instruction.targets = [] := by
  cases instruction with
  | jump | branch => cases h
  | _ => rfl

end Instruction

/-- Where nothing follows a terminator, control goes to the targets of any instruction. -/
theorem Block.mem_successors_iff {block : Block} (h : block.code.dropLast.any Instruction.isTerminator = false)
    (id : BlockId) : id ∈ block.successors ↔ ∃ instruction ∈ block.code, id ∈ instruction.targets := by
  rw [successors, terminator?]
  rcases List.eq_nil_or_concat block.code with hCode | ⟨front, last, hCode⟩
  · simp [hCode]
  · rw [List.concat_eq_append] at hCode
    rw [hCode, List.dropLast_concat, List.any_eq_false] at h
    rw [hCode, List.getLast?_concat]
    constructor
    · intro hMem
      cases hLast : last.isTerminator with
      | false => simp [Option.filter, hLast] at hMem
      | true => exact ⟨last, by simp, by simpa [Option.filter, hLast] using hMem⟩
    · rintro ⟨instruction, hMem, hTarget⟩
      have hTerminator := Instruction.isTerminator_of_mem_targets hTarget
      rcases List.mem_append.mp hMem with hFront | hLast
      · exact absurd hTerminator (h instruction hFront)
      · obtain rfl := List.mem_singleton.mp hLast
        simpa [Option.filter, hTerminator] using hTarget

namespace Function

/-- The references of a function hold, given the functions that are there. -/
structure Linked (known : FunctionId → Prop) (f : Function) : Prop where
  calls : ∀ instruction ∈ f.code, ∀ callee, instruction.calls callee = true → known callee
  targets : ∀ instruction ∈ f.code, ∀ target ∈ instruction.targets, target.index < f.blocks.size
  edges : ∀ id source, source ∈ (f.predecessorsAt id).ids ↔
    ∃ instruction ∈ f.codeAt source, id ∈ instruction.targets
  sorted : ∀ id, (f.predecessorsAt id).Sorted

namespace Linked

variable {known : FunctionId → Prop} {f f' : Function} (h : f.Linked known)
include h

theorem mono {known' : FunctionId → Prop}
    (hKnown : ∀ instruction ∈ f.code, ∀ callee, instruction.calls callee = true → known callee → known' callee) :
    f.Linked known' where
  calls instruction hMem callee hCalls := hKnown instruction hMem callee hCalls (h.calls instruction hMem callee hCalls)
  targets := h.targets
  edges := h.edges
  sorted := h.sorted

theorem newBlock (label : String) : (f.newBlock label).Linked known where
  calls instruction hMem := by
    rw [code_newBlock] at hMem
    exact h.calls instruction hMem
  targets instruction hMem target hTarget := by
    rw [code_newBlock] at hMem
    change target.index < (f.blocks.push _).size
    rw [Table.size_push]
    exact Nat.lt_succ_of_lt (h.targets instruction hMem target hTarget)
  edges id source := by
    rw [predecessorsAt_newBlock, codeAt_newBlock]
    exact h.edges id source
  sorted id := by
    rw [predecessorsAt_newBlock]
    exact h.sorted id

theorem newSlot {at_ : BlockId} (hAt : at_.index < f.blocks.size) (row : Slot) :
    (f.newSlot at_ row).Linked known where
  calls instruction hMem callee hCalls := by
    rcases List.mem_cons.mp ((code_newSlot_perm hAt row).mem_iff.mp hMem) with rfl | hMem
    · cases hCalls
    · exact h.calls instruction hMem callee hCalls
  targets instruction hMem target hTarget := by
    change target.index < (f.blocks.modify at_ _).size
    rw [Table.size_modify]
    rcases List.mem_cons.mp ((code_newSlot_perm hAt row).mem_iff.mp hMem) with rfl | hMem
    · cases hTarget
    · exact h.targets instruction hMem target hTarget
  edges id source := by
    rw [predecessorsAt_newSlot, h.edges, codeAt_newSlot f hAt]
    split
    · simp [(addAlloca_perm _ _).mem_iff, Instruction.targets]
    · rfl
  sorted id := by
    rw [predecessorsAt_newSlot]
    exact h.sorted id

theorem add {at_ : BlockId} (hAt : at_.index < f.blocks.size) {instruction : Instruction}
    (hTargets : ∀ target ∈ instruction.targets, target.index < f.blocks.size)
    (hCalls : ∀ callee, instruction.calls callee = true → known callee) :
    (f.add at_ instruction).Linked known where
  calls other hMem := by
    rcases List.mem_cons.mp ((code_add_perm hAt).mem_iff.mp hMem) with rfl | hMem
    · exact hCalls
    · exact h.calls other hMem
  targets other hMem := by
    rw [size_add]
    rcases List.mem_cons.mp ((code_add_perm hAt).mem_iff.mp hMem) with rfl | hMem
    · exact hTargets
    · exact h.targets other hMem
  edges id source := by
    rw [mem_predecessorsAt_add f hTargets, h.edges, codeAt_add f hAt]
    split
    · simp [*, or_and_right, exists_or]
    · simp [*]
  sorted id := sorted_predecessorsAt_add f hTargets id (h.sorted id)

/-- The step lemma. -/
theorem edit {change : Issued → Issued} (hEdits : f.Edits known change f') : f'.Linked known := by
  cases hEdits with
  | block label => exact h.newBlock label
  | slot inside row => exact h.newSlot inside row
  | plain inside destination alloca targets calls => exact h.add inside targets calls
  | result inside ty destination calls =>
    have hRegister : (f.newRegister ty).Linked known := ⟨h.calls, h.targets, h.edges, h.sorted⟩
    apply hRegister.add inside _ calls
    rw [Instruction.targets_of_destination? destination]
    simp

end Linked

theorem linked_of_blocks_eq_empty {known : FunctionId → Prop} {f : Function} (h : f.blocks = .empty) :
    f.Linked known := by
  have hCode : f.code = [] := by
    rw [code, h]
    rfl
  have hSize : ∀ id : BlockId, f.blocks.size ≤ id.index := by simp [h]
  constructor
  · simp [hCode]
  · simp [hCode]
  · simp [predecessorsAt_of_size_le f (hSize _), codeAt_of_size_le f (hSize _)]
  · intro id
    rw [predecessorsAt_of_size_le f (hSize id)]
    exact IdSet.sorted_empty

end Function

/-! ## What a history keeps -/

def Assembly.Linked (assembly : Assembly) : Prop :=
  ∀ id f, assembly.get? id = some f → f.Linked assembly.Has

namespace Assembly.Linked

variable {assembly : Assembly} (h : assembly.Linked)
include h

theorem put (id : FunctionId) {f : Function} (hLinked : f.Linked assembly.Has) :
    (assembly.put id f).Linked := by
  have hHas : ∀ callee, assembly.Has callee → (assembly.put id f).Has callee := by
    rintro callee ⟨g, hCallee⟩
    rw [Has, get?_put]
    split
    · exact ⟨f, rfl⟩
    · exact ⟨g, hCallee⟩
  intro key g hKey
  rw [get?_put] at hKey
  split at hKey
  · cases hKey
    exact hLinked.mono fun _ _ callee _ => hHas callee
  · exact (h key g hKey).mono fun _ _ callee _ => hHas callee

theorem declare (name : String) (signature : Signature) (linkage : Linkage) :
    (assembly.declare name signature linkage).Linked := by
  have hHas : ∀ callee, assembly.Has callee → (assembly.declare name signature linkage).Has callee := by
    rintro callee ⟨g, hCallee⟩
    rw [Has, get?_declare]
    split
    · exact ⟨_, rfl⟩
    · exact ⟨g, hCallee⟩
  intro key g hKey
  rw [get?_declare] at hKey
  split at hKey
  · cases hKey
    exact Function.linked_of_blocks_eq_empty rfl
  · exact (h key g hKey).mono fun _ _ callee _ => hHas callee

/-- A function goes only when nothing calls it any more. -/
theorem discard (id : FunctionId) (f : Function) : (assembly.discard id f).Linked := by
  have hPut : (assembly.put id f.withoutBody).Linked := h.put id (Function.linked_of_blocks_eq_empty rfl)
  by_cases hReferenced : (assembly.put id f.withoutBody).module.isReferenced id = true
  · rw [Assembly.discard, if_pos hReferenced]
    exact hPut
  · rw [Bool.not_eq_true] at hReferenced
    intro key g hKey
    have hGet := assembly.get?_discard id (f := f)
    rw [hGet, hReferenced] at hKey
    split at hKey
    · cases hKey
    · rename_i hId
      have hKept : (assembly.put id f.withoutBody).get? key = some g := by
        rw [get?_put, if_neg hId, hKey]
      apply (hPut key g hKept).mono
      rintro instruction hMem callee hCalls ⟨g', hCallee⟩
      have hOther : callee ≠ id := by
        rintro rfl
        have hValue : g ∈ (assembly.put callee f.withoutBody).module.functions.values :=
          List.mem_map.mpr ⟨_, IdMap.mem_of_get? hKept, rfl⟩
        rw [Module.isReferenced, List.any_eq_false] at hReferenced
        apply hReferenced g hValue
        exact List.any_eq_true.mpr ⟨instruction, hMem, hCalls⟩
      rw [get?_put, if_neg hOther] at hCallee
      exact ⟨g', (hGet callee).trans ((if_neg hOther).trans hCallee)⟩

theorem changes {assembly' : Assembly} {ledger ledger' : Ledger}
    (hChanges : assembly.Changes ledger assembly' ledger') : assembly'.Linked := by
  cases hChanges with
  | idle => exact h
  | declared name signature linkage => exact h.declare name signature linkage
  | discarded => exact h.discard _ _
  | edited found edits => exact h.put _ ((h _ _ found).edit edits)

end Assembly.Linked

/-! ## What verification can find -/

/-- A flaw in what a function refers to. -/
def Flaw.isLink : Flaw → Bool
  | .invalidBlock _ | .invalidFunction | .predecessorMismatch .. => true
  | _ => false

namespace Verify

variable {module : Module} {f : Function} {block : Block} {flaw : Flaw}

theorem isLink_of_mem_ite {condition : Prop} [Decidable condition] {found : Flaw} (hFound : found.isLink = false)
    (h : flaw ∈ if condition then [] else [found]) : flaw.isLink = false := by
  split at h
  · cases h
  · rw [List.mem_singleton.mp h]
    exact hFound

theorem isLink_of_mem_expectTy {expected actual : Ty} (h : flaw ∈ expectTy expected actual) :
    flaw.isLink = false :=
  isLink_of_mem_ite rfl h

theorem isLink_of_mem_elim {expected : Ty} {actual : Option Ty} (h : flaw ∈ actual.elim [] (expectTy expected)) :
    flaw.isLink = false := by
  cases actual with
  | none => cases h
  | some actual => exact isLink_of_mem_expectTy h

theorem isLink_of_mem_checkTypes {instruction : Instruction} (h : flaw ∈ checkTypes f instruction) :
    flaw.isLink = false := by
  cases instruction with
  | arith op destination lhs rhs =>
    rcases List.mem_append.mp h with h | h <;> exact isLink_of_mem_elim h
  | compare predicate destination lhs rhs =>
    rw [checkTypes] at h
    split at h
    · exact isLink_of_mem_expectTy h
    · cases h
  | store slot value =>
    rw [checkTypes] at h
    split at h
    · exact isLink_of_mem_expectTy h
    · cases h
  | branch condition positive negative =>
    rw [checkTypes] at h
    split at h
    · cases h
    · cases h
    · rw [List.mem_singleton.mp h]
      rfl
  | phi destination sources =>
    rw [checkTypes] at h
    split at h
    · obtain ⟨value, -, h⟩ := List.mem_flatMap.mp h
      exact isLink_of_mem_elim h
    · cases h
  | ret value =>
    cases value with
    | none => cases h
    | some value =>
      rw [checkTypes] at h
      split at h
      · exact isLink_of_mem_ite rfl h
      · cases h
  | alloca | load | extend | call | jump => cases h

theorem checkTarget_eq_nil {target : BlockId} (h : target.index < f.blocks.size) : checkTarget f target = [] := by
  rw [checkTarget, if_pos ((f.blocks.contains_iff target).mpr h)]

theorem isLink_of_mem_checkShape {instruction : Instruction}
    (hTargets : ∀ target ∈ instruction.targets, target.index < f.blocks.size)
    (hCalls : ∀ callee, instruction.calls callee = true → ∃ g, module.get? callee = some g)
    (h : flaw ∈ checkShape module f block instruction) : flaw.isLink = false := by
  cases instruction with
  | jump target =>
    rw [checkShape, checkTarget_eq_nil (hTargets target (by simp [Instruction.targets]))] at h
    cases h
  | branch condition positive negative =>
    rw [checkShape, checkTarget_eq_nil (hTargets positive (by simp [Instruction.targets])),
      checkTarget_eq_nil (hTargets negative (by simp [Instruction.targets]))] at h
    cases h
  | phi destination sources => exact isLink_of_mem_ite rfl h
  | call callee arguments destination =>
    obtain ⟨g, hCallee⟩ := hCalls callee (by simp [Instruction.calls])
    simp only [checkShape, hCallee] at h
    exact isLink_of_mem_ite rfl h
  | ret value =>
    cases value with
    | none => exact isLink_of_mem_ite rfl h
    | some value => cases h
  | alloca | load | store | arith | compare | extend => cases h

theorem isLink_of_mem_checkInstruction {instruction : Instruction}
    (hTargets : ∀ target ∈ instruction.targets, target.index < f.blocks.size)
    (hCalls : ∀ callee, instruction.calls callee = true → ∃ g, module.get? callee = some g)
    (h : flaw ∈ checkInstruction module f block instruction) : flaw.isLink = false := by
  simp only [checkInstruction, List.mem_append] at h
  rcases h with ((hRegister | hSlot) | hShape) | hTypes
  · rw [Option.mem_toList, Option.map_eq_some_iff] at hRegister
    obtain ⟨register, -, rfl⟩ := hRegister
    rfl
  · rw [checkSlot] at hSlot
    split at hSlot
    · exact isLink_of_mem_ite rfl hSlot
    · cases hSlot
  · exact isLink_of_mem_checkShape hTargets hCalls hShape
  · split at hTypes
    · exact isLink_of_mem_checkTypes hTypes
    · cases hTypes

theorem isLink_of_mem_checkCode {past : Bool} {code : List Instruction}
    (hTargets : ∀ instruction ∈ code, ∀ target ∈ instruction.targets, target.index < f.blocks.size)
    (hCalls : ∀ instruction ∈ code, ∀ callee, instruction.calls callee = true →
      ∃ g, module.get? callee = some g)
    (h : flaw ∈ checkCode module f block past code) : flaw.isLink = false := by
  induction code generalizing past with
  | nil => cases h
  | cons first rest ih =>
    simp only [checkCode, List.mem_append] at h
    rcases h with (hPhi | hFirst) | hRest
    · split at hPhi
      · rw [List.mem_singleton.mp hPhi]
        rfl
      · cases hPhi
    · exact isLink_of_mem_checkInstruction (hTargets first List.mem_cons_self) (hCalls first List.mem_cons_self) hFirst
    · exact ih (fun other hMem => hTargets other (List.mem_cons_of_mem _ hMem))
        (fun other hMem => hCalls other (List.mem_cons_of_mem _ hMem)) hRest

theorem isLink_of_mem_checkBlock (hBlock : block ∈ f.blocks.toList)
    (hLinked : f.Linked fun callee => ∃ g, module.get? callee = some g)
    (h : flaw ∈ checkBlock module f block) : flaw.isLink = false := by
  have hCode : ∀ instruction ∈ block.code, instruction ∈ f.code := fun instruction hMem =>
    List.mem_flatMap.mpr ⟨block, hBlock, hMem⟩
  simp only [checkBlock, List.mem_append] at h
  rcases h with (hEnd | hMiddle) | hInside
  · exact isLink_of_mem_ite rfl hEnd
  · split at hMiddle
    · rw [List.mem_singleton.mp hMiddle]
      rfl
    · cases hMiddle
  · exact isLink_of_mem_checkCode (fun instruction hMem => hLinked.targets instruction (hCode instruction hMem))
      (fun instruction hMem => hLinked.calls instruction (hCode instruction hMem)) hInside

theorem mem_located_iff (name : String) (id : BlockId) (check : BlockId → Block → List Flaw) :
    .inBlock name id flaw ∈ located f check ↔
      name = f.name ∧ ∃ block, f.blocks.get? id = some block ∧ flaw ∈ check id block := by
  simp only [located, List.mem_flatMap, List.mem_map, Prod.exists, Table.mem_entries_iff]
  constructor
  · rintro ⟨found, block, hBlock, flaw', hFlaw, hEq⟩
    cases hEq
    exact ⟨rfl, block, hBlock, hFlaw⟩
  · rintro ⟨rfl, block, hBlock, hFlaw⟩
    exact ⟨id, block, hBlock, flaw, hFlaw, rfl⟩

end Verify

namespace Function

/-- No block goes on behind a terminator. -/
def Ends (f : Function) : Prop :=
  ∀ id block, f.blocks.get? id = some block → block.code.dropLast.any Instruction.isTerminator = false

namespace Linked

variable {known : FunctionId → Prop} {f : Function} (h : f.Linked known)
include h

theorem mem_predecessors_iff (hEnds : f.Ends) {id : BlockId} {block : Block}
    (hBlock : f.blocks.get? id = some block) (source : BlockId) :
    source ∈ block.predecessors.ids ↔ ∃ row, f.blocks.get? source = some row ∧ id ∈ row.successors := by
  rw [← f.predecessorsAt_of_get? hBlock, h.edges]
  constructor
  · rintro ⟨instruction, hMem, hTarget⟩
    cases hRow : f.blocks.get? source with
    | none =>
      rw [f.codeAt_of_size_le ((f.blocks.get?_eq_none_iff source).mp hRow)] at hMem
      cases hMem
    | some row =>
      rw [f.codeAt_of_get? hRow] at hMem
      exact ⟨row, rfl, (Block.mem_successors_iff (hEnds source row hRow) id).mpr ⟨instruction, hMem, hTarget⟩⟩
  · rintro ⟨row, hRow, hMem⟩
    rw [f.codeAt_of_get? hRow]
    exact (Block.mem_successors_iff (hEnds source row hRow) id).mp hMem

theorem checkPredecessors_eq_nil (hEnds : f.Ends) {id : BlockId} {block : Block}
    (hBlock : f.blocks.get? id = some block) : Verify.checkPredecessors f id block = [] := by
  apply (Verify.checkPredecessors_eq_nil_iff f id block).mpr
  constructor
  · rw [← f.predecessorsAt_of_get? hBlock]
    exact h.sorted id
  · exact h.mem_predecessors_iff hEnds hBlock

end Linked

/-- Verification finds no wrong reference in a linked function, and a wrong record of predecessors only where
some block goes on behind a terminator. -/
theorem Linked.checkFunction {module : Module} {f : Function}
    (h : f.Linked fun callee => ∃ g, module.get? callee = some g) {name : String} {id : BlockId} {flaw : Flaw}
    (hError : .inBlock name id flaw ∈ Verify.checkFunction module f) (hLink : flaw.isLink = true) :
    (∃ recorded actual, flaw = .predecessorMismatch recorded actual) ∧
      ∃ other, .inBlock name other .instructionAfterTerminator ∈ Verify.checkFunction module f := by
  have hBody : f.isDeclaration = false := by
    by_contra hBody
    rw [Bool.not_eq_false] at hBody
    rw [Verify.checkFunction, if_pos hBody] at hError
    split at hError <;> simp at hError
  simp only [Verify.checkFunction, hBody, Bool.false_eq_true, if_false, List.mem_append] at hError ⊢
  rcases hError with hInside | hEdges
  · obtain ⟨-, block, hBlock, hFlaw⟩ := (Verify.mem_located_iff _ _ _).mp hInside
    have hMem := (f.blocks.mem_toList_iff block).mpr ⟨id, hBlock⟩
    rw [Verify.isLink_of_mem_checkBlock hMem h hFlaw] at hLink
    cases hLink
  · obtain ⟨rfl, block, hBlock, hFlaw⟩ := (Verify.mem_located_iff _ _ _).mp hEdges
    constructor
    · rw [Verify.checkPredecessors] at hFlaw
      split at hFlaw
      · cases hFlaw
      · exact ⟨_, _, List.mem_singleton.mp hFlaw⟩
    · have hGoesOn : ¬f.Ends := by
        intro hEnds
        rw [h.checkPredecessors_eq_nil hEnds hBlock] at hFlaw
        cases hFlaw
      simp only [Ends, not_forall, Bool.not_eq_false] at hGoesOn
      obtain ⟨other, row, hRow, hAny⟩ := hGoesOn
      refine ⟨other, .inl ((Verify.mem_located_iff _ _ _).mpr ⟨rfl, row, hRow, ?_⟩)⟩
      simp [Verify.checkBlock, hAny]

end Function

/-- The references of a module hold, and verification finds that they do. -/
structure Module.Intact (module : Module) : Prop where
  calls : ∀ id f, module.get? id = some f → ∀ instruction ∈ f.code, ∀ callee,
    instruction.calls callee = true → ∃ g, module.get? callee = some g
  targets : ∀ id f, module.get? id = some f → ∀ instruction ∈ f.code, ∀ target ∈ instruction.targets,
    target.index < f.blocks.size
  predecessors : ∀ id f, module.get? id = some f → f.Ends →
    ∀ at_ block, f.blocks.get? at_ = some block → block.predecessors.Sorted ∧
      ∀ source, source ∈ block.predecessors.ids ↔
        ∃ row, f.blocks.get? source = some row ∧ at_ ∈ row.successors
  verified : ∀ name at_ flaw, .inBlock name at_ flaw ∈ module.verify →
    flaw ≠ .invalidFunction ∧ ∀ target, flaw ≠ .invalidBlock target
  mismatches : ∀ id f, module.get? id = some f → ∀ name at_ recorded actual,
    .inBlock name at_ (.predecessorMismatch recorded actual) ∈ Verify.checkFunction module f →
      ∃ other, .inBlock name other .instructionAfterTerminator ∈ Verify.checkFunction module f

theorem Assembly.Linked.intact {assembly : Assembly} (h : assembly.Linked)
    (hSorted : assembly.module.functions.Sorted) : assembly.module.Intact where
  calls id f hFound := (h id f hFound).calls
  targets id f hFound := (h id f hFound).targets
  predecessors id f hFound hEnds at_ block hBlock := by
    constructor
    · rw [← f.predecessorsAt_of_get? hBlock]
      exact (h id f hFound).sorted at_
    · exact (h id f hFound).mem_predecessors_iff hEnds hBlock
  verified name at_ flaw hError := by
    obtain ⟨f, hMem, hFunction⟩ := List.mem_flatMap.mp hError
    obtain ⟨id, hFound⟩ := (hSorted.mem_values_iff f).mp hMem
    have hLinked := h id f hFound
    constructor
    · rintro rfl
      obtain ⟨⟨_, _, hFlaw⟩, -⟩ := hLinked.checkFunction hFunction rfl
      cases hFlaw
    · rintro target rfl
      obtain ⟨⟨_, _, hFlaw⟩, -⟩ := hLinked.checkFunction hFunction rfl
      cases hFlaw
  mismatches id f hFound name at_ recorded actual hError := ((h id f hFound).checkFunction hError rfl).2

/-- After every history, with whatever handles, calls lead to functions of the module and control stays in its
function. Where no block goes on behind a terminator, the recorded predecessors are those that verification
works out. -/
theorem Builder.intact_of_history (module : String) (history : List Operation) (builder : Builder)
    (ledger : Ledger) (h : Builder.after? module history = some (builder, ledger)) : builder.module.Intact := by
  have hNew : (Assembly.new module).Linked := by
    intro id f hFound
    cases hFound
  have hSorted := (Builder.after?_invariant Assembly.Regular (Assembly.regular_new module)
    (fun _ _ _ _ hOld hChanges => hOld.changes hChanges) h).sorted
  have hLinked : builder.assembly.Linked :=
    Builder.after?_invariant (fun assembly _ => assembly.Linked) hNew
      (fun _ _ _ _ hOld hChanges => hOld.changes hChanges) h
  exact hLinked.intact hSorted

/-- A jump that is followed by a return: its edge stays recorded. -/
def Operation.overrun : List Operation := [
  .declare "f" { parameters := [], result := .void } .internal, .createBlock ⟨0⟩ "entry",
  .createBlock ⟨0⟩ "next", .setInsertionPoint ⟨⟨0⟩, ⟨1⟩⟩, .ret none, .setInsertionPoint ⟨⟨0⟩, ⟨0⟩⟩,
  .jump ⟨⟨0⟩, ⟨1⟩⟩, .ret none]

theorem Builder.intact_overrun : ∃ builder ledger,
    Builder.after? "m" Operation.overrun = some (builder, ledger) ∧
      builder.module.verify = [.inBlock "f" ⟨0⟩ .instructionAfterTerminator,
        .inBlock "f" ⟨1⟩ (.predecessorMismatch (.ofList [⟨0⟩]) .empty)] ∧
      builder.module.Intact := by
  have hSome : (Builder.after? "m" Operation.overrun).isSome = true := by decide
  obtain ⟨⟨builder, ledger⟩, hRun⟩ := Option.isSome_iff_exists.mp hSome
  have hErrors : (Builder.after? "m" Operation.overrun).map (fun state => state.1.module.verify) =
      some [.inBlock "f" ⟨0⟩ .instructionAfterTerminator,
        .inBlock "f" ⟨1⟩ (.predecessorMismatch (.ofList [⟨0⟩]) .empty)] := by decide
  rw [hRun] at hErrors
  exact ⟨builder, ledger, hRun, Option.some.inj hErrors,
    Builder.intact_of_history "m" Operation.overrun builder ledger hRun⟩

end Slate
