import Slate.Lowering.Body
import Slate.Proofs.Construction

/-! # Control flow under construction

A plan says which registers are surely written at the start of each block and which blocks have no
terminator yet; a draft is ready when it keeps to a plan and its block is one of those. `Extends` says
what lowering does to a function: it writes to the block it starts in and to new blocks. `Flow` adds where
a construct arrives: its block takes the place of the one it started in, and whatever was written at
its start is written at its end.
-/

namespace Slate
set_option autoImplicit false

/-- What bodies are lowered in: the signatures of the functions that can be called, and the most
arguments that a call is written with. -/
structure Context where
  signature? : FunctionId → Option Signature
  width : Nat

/-- A call has a register for a result if there is one, and a variadic call passes its count. -/
def Instruction.Conforms (context : Context) : Instruction → Prop
  | .call callee arguments destination => ∃ signature, context.signature? callee = some signature ∧
    (destination.isSome = true ↔ signature.result ≠ .void) ∧
    (signature.variadic = true → ∃ given : List Operand, given.length ≤ context.width ∧
      arguments = Lowering.withCount signature.visibleArity given)
  | _ => True

structure Plan where
  entering : Function.Entering
  /-- The blocks without a terminator. -/
  frontier : Set BlockId

namespace Plan

def add (plan : Plan) (id : BlockId) (written : RegisterId → Prop) : Plan where
  entering := plan.entering.set id written
  frontier := insert id plan.frontier

def close (plan : Plan) (id : BlockId) : Plan :=
  { plan with frontier := plan.frontier \ {id} }

theorem entering_add (plan : Plan) (id : BlockId) (written : RegisterId → Prop) :
    (plan.add id written).entering id = written :=
  if_pos rfl

theorem entering_add_of_ne (plan : Plan) {id other : BlockId} (hNe : other ≠ id)
    (written : RegisterId → Prop) : (plan.add id written).entering other = plan.entering other :=
  plan.entering.set_of_ne hNe written

end Plan

namespace Function

structure Staged (context : Context) (plan : Plan) (function : Function) :
    Prop where
  sound : function.Sound context.signature? plan.entering
  known : ∀ id ∈ plan.frontier, id.index < function.blocks.size
  unfinished : ∀ id ∈ plan.frontier, ∀ instruction ∈ function.bodyAt id,
    instruction.isTerminator = false
  finished : ∀ id : BlockId, id.index < function.blocks.size → id ∉ plan.frontier →
    Instruction.Closed (function.bodyAt id)
  calls : ∀ id, ∀ instruction ∈ function.bodyAt id, instruction.Conforms context

/-- Nothing changed in the blocks of the first function but the given one, which got no phi. -/
structure Extends (at_ : BlockId) (plan : Plan) (f : Function) (plan' : Plan) (f' : Function) :
    Prop where
  grows : f.Grows f'
  kept : ∀ id, id.index < f.blocks.size → id ≠ at_ → f'.bodyAt id = f.bodyAt id
  phis : (∀ instruction ∈ f.bodyAt at_, instruction.isPhi = false) →
    ∀ instruction ∈ f'.bodyAt at_, instruction.isPhi = false
  agrees : ∀ id, id.index < f.blocks.size → plan'.entering id = plan.entering id

theorem Staged.successorsAt_eq_nil {context : Context} {plan : Plan} {function : Function}
    (h : function.Staged context plan) {id : BlockId} (hId : id ∈ plan.frontier) :
    function.successorsAt id = [] := by
  rw [successorsAt, List.flatMap_eq_nil_iff]
  intro instruction hMem
  rw [List.eq_nil_iff_forall_not_mem]
  intro target hTarget
  have hOpen := h.unfinished id hId instruction hMem
  rw [Instruction.isTerminator_of_mem_targets hTarget] at hOpen
  cases hOpen

namespace Extends

variable {at_ : BlockId} {plan plan₁ plan₂ : Plan} {f f₁ f₂ : Function}

theorem refl (at_ : BlockId) (plan : Plan) (f : Function) : Extends at_ plan f plan f :=
  ⟨.refl f, fun _ _ _ => rfl, fun h => h, fun _ _ => rfl⟩

theorem leaving (h : Extends at_ plan f plan₁ f₁) {id : BlockId} (hId : id.index < f.blocks.size)
    {register : RegisterId} (hRegister : f.Leaving plan.entering id register) :
    f₁.Leaving plan₁.entering id register := by
  rw [Leaving, h.agrees id hId]
  exact h.grows.leaving hRegister

theorem kept_of_le (h : Extends at_ plan f plan₁ f₁) {next id : BlockId}
    (hId : id.index < f.blocks.size) (hNe : id ≠ at_) (hNext : next = at_ ∨ f.blocks.size ≤ next.index)
    (hSecond : Extends next plan₁ f₁ plan₂ f₂) : f₂.bodyAt id = f.bodyAt id := by
  rw [hSecond.kept id (Nat.lt_of_lt_of_le hId h.grows.blocks) ?_, h.kept id hId hNe]
  rintro rfl
  rcases hNext with hEq | hLarge
  · exact hNe hEq
  · exact Nat.not_le.mpr hId hLarge

/-- A second change, in the same block or a new one. -/
theorem trans (h : Extends at_ plan f plan₁ f₁) {next : BlockId}
    (hSecond : Extends next plan₁ f₁ plan₂ f₂) (hAt : at_.index < f.blocks.size)
    (hNext : next = at_ ∨ f.blocks.size ≤ next.index) : Extends at_ plan f plan₂ f₂ where
  grows := h.grows.trans hSecond.grows
  kept id hId hNe := h.kept_of_le hId hNe hNext hSecond
  phis hNone := by
    rcases hNext with rfl | hLarge
    · exact hSecond.phis (h.phis hNone)
    · rw [hSecond.kept at_ (Nat.lt_of_lt_of_le hAt h.grows.blocks) (Id.ne_of_index_lt
        (Nat.lt_of_lt_of_le hAt hLarge))]
      exact h.phis hNone
  agrees id hId := by
    rw [hSecond.agrees id (Nat.lt_of_lt_of_le hId h.grows.blocks), h.agrees id hId]

/-- A change of a new block, perhaps by a phi. -/
theorem new (h : Extends at_ plan f plan₁ f₁) (hAt : at_.index < f.blocks.size)
    (hGrows : f₁.Grows f₂) {next : BlockId} (hNext : f.blocks.size ≤ next.index)
    (hKept : ∀ id, id ≠ next → f₂.bodyAt id = f₁.bodyAt id) : Extends at_ plan f plan₁ f₂ where
  grows := h.grows.trans hGrows
  kept id hId hNe := by
    rw [hKept id (Id.ne_of_index_lt (Nat.lt_of_lt_of_le hId hNext)), h.kept id hId hNe]
  phis hNone := by
    rw [hKept at_ (Id.ne_of_index_lt (Nat.lt_of_lt_of_le hAt hNext))]
    exact h.phis hNone
  agrees := h.agrees

theorem of_widens (at_ : BlockId) (plan : Plan) (h : f.Widens f₁) : Extends at_ plan f plan f₁ where
  grows := h.grows
  kept id _ _ := h.body id
  phis hNone := by
    rw [h.body]
    exact hNone
  agrees _ _ := rfl

theorem newBlock (at_ : BlockId) (plan : Plan) (f : Function) (label : String)
    (written : RegisterId → Prop) :
    Extends at_ plan f (plan.add f.blocks.nextId written) (f.newBlock label) :=
  { of_widens at_ plan (widens_newBlock f label) with
    agrees := fun _ hId => plan.entering.set_of_ne (Id.ne_of_index_lt hId) written }

theorem add (hAt : at_.index < f.blocks.size) {instruction : Instruction}
    (hAlloca : instruction.isAlloca = false) (hPhi : instruction.isPhi = false)
    (hAgrees : plan₁.entering = plan.entering) :
    Extends at_ plan f plan₁ (f.add at_ instruction) where
  grows := grows_add hAt hAlloca
  kept id _ hNe := by rw [bodyAt_add f hAt hAlloca, if_neg hNe]
  phis hNone other hOther := by
    rw [bodyAt_add f hAt hAlloca, if_pos rfl] at hOther
    rcases List.mem_append.mp hOther with hOther | hOther
    · exact hNone other hOther
    · rw [List.mem_singleton.mp hOther]
      exact hPhi
  agrees id _ := by rw [hAgrees]

end Extends
end Function

namespace Draft

structure Ready (context : Context) (plan : Plan) (draft : Draft) :
    Prop where
  staged : draft.function.Staged context plan
  here : draft.block ∈ plan.frontier

/-- A value of the given type that is written wherever control is at the end of the current block. -/
structure Usable (plan : Plan) (draft : Draft) (value : Operand) (ty : Ty) : Prop where
  typed : draft.function.operandType? value = some ty
  written : ∀ id, value.register? = some id → draft.function.Leaving plan.entering draft.block id

structure Flow (plan : Plan) (d : Draft) (plan' : Plan) (d' : Draft) : Prop where
  extends_ : Function.Extends d.block plan d.function plan' d'.function
  arrives : d'.block = d.block ∨ d.function.blocks.size ≤ d'.block.index
  frontier : ∀ id, id ∈ plan'.frontier ↔ id = d'.block ∨ id ∈ plan.frontier ∧ id ≠ d.block
  carries : ∀ id, d.function.Leaving plan.entering d.block id →
    d'.function.Leaving plan'.entering d'.block id

variable {context : Context} {plan plan₁ plan₂ : Plan} {d d₁ d₂ : Draft}
  {value : Operand} {ty : Ty}

theorem usable_const (plan : Plan) (d : Draft) (value : Value) :
    Usable plan d (.const value) value.ty where
  typed := rfl
  written _ hId := by cases hId

theorem Usable.flow (h : Usable plan d value ty) (hFlow : Flow plan d plan₁ d₁) :
    Usable plan₁ d₁ value ty where
  typed := hFlow.extends_.grows.operandType? h.typed
  written id hId := hFlow.carries id (h.written id hId)

theorem Usable.extends_ (h : Usable plan d value ty) (hHere : d.block.index < d.function.blocks.size)
    {at_ : BlockId} {f : Function} (hExtends : Function.Extends at_ plan d.function plan₁ f) :
    Usable plan₁ ⟨f, d.block⟩ value ty where
  typed := hExtends.grows.operandType? h.typed
  written id hId := hExtends.leaving hHere (h.written id hId)

section Operands

variable {instruction : Instruction}
  (h : ∀ value ∈ instruction.operands, ∃ ty, Usable plan d value ty)
include h

theorem reads_lt_of_usable (id : RegisterId) (hId : id ∈ instruction.reads) :
    id.index < d.function.registers.size := by
  obtain ⟨value, hValue, hId⟩ := List.mem_filterMap.mp hId
  obtain ⟨ty, hUsable⟩ := h value hValue
  exact Function.operandType?_lt hUsable.typed id hId

theorem reads_written_of_usable (id : RegisterId) (hId : id ∈ instruction.reads) :
    d.function.Leaving plan.entering d.block id := by
  obtain ⟨value, hValue, hId⟩ := List.mem_filterMap.mp hId
  obtain ⟨ty, hUsable⟩ := h value hValue
  exact hUsable.written id hId

end Operands

namespace Ready

theorem size_pos (h : d.Ready context plan) : 0 < d.function.blocks.size :=
  Nat.lt_of_le_of_lt (Nat.zero_le _) (h.staged.known _ h.here)

theorem block_lt (h : d.Ready context plan) : d.block.index < d.function.blocks.size :=
  h.staged.known _ h.here

theorem moveTo (h : d.Ready context plan) {next : BlockId} (hNext : next ∈ plan.frontier) :
    ({ d with block := next } : Draft).Ready context plan :=
  ⟨h.staged, hNext⟩

end Ready

namespace Flow

theorem refl (h : d.Ready context plan) : Flow plan d plan d where
  extends_ := .refl _ _ _
  arrives := .inl rfl
  frontier id := by
    refine ⟨fun hMem => ?_, ?_⟩
    · by_cases hId : id = d.block
      · exact .inl hId
      · exact .inr ⟨hMem, hId⟩
    · rintro (rfl | ⟨hMem, _⟩)
      · exact h.here
      · exact hMem
  carries _ hMem := hMem

theorem trans (h : d.Ready context plan) (hFirst : Flow plan d plan₁ d₁)
    (hSecond : Flow plan₁ d₁ plan₂ d₂) : Flow plan d plan₂ d₂ where
  extends_ := hFirst.extends_.trans hSecond.extends_ h.block_lt hFirst.arrives
  arrives := by
    rcases hSecond.arrives with hEq | hLarge
    · rw [hEq]
      exact hFirst.arrives
    · exact .inr (Nat.le_trans hFirst.extends_.grows.blocks hLarge)
  frontier id := by
    rw [hSecond.frontier, hFirst.frontier]
    refine or_congr_right ⟨?_, fun hOld => ⟨.inr hOld, ?_⟩⟩
    · rintro ⟨hEq | hOld, hNe⟩
      · exact absurd hEq hNe
      · exact hOld
    · rintro rfl
      rcases hFirst.arrives with hEq | hLarge
      · exact hOld.2 hEq
      · exact Nat.not_le.mpr (h.staged.known _ hOld.1) hLarge
  carries id hMem := hSecond.carries id (hFirst.carries id hMem)

/-- More registers, slots or code in the current block. -/
theorem straight (h : d.Ready context plan) {f : Function}
    (hExtends : Function.Extends d.block plan d.function plan f) :
    Flow plan d plan { d with function := f } :=
  { refl h with
    extends_ := hExtends
    carries := fun _ hMem => hExtends.grows.leaving hMem }

end Flow

namespace Ready

variable (h : d.Ready context plan)
include h

theorem newBlock (label : String) (written : RegisterId → Prop) :
    ({ d with function := d.function.newBlock label } : Draft).Ready context
      (plan.add d.function.blocks.nextId written) := by
  have hSize : (d.function.newBlock label).blocks.size = d.function.blocks.size + 1 :=
    Table.size_push _ _
  have hEmpty : d.function.bodyAt d.function.blocks.nextId = [] :=
    d.function.bodyAt_of_size_le (Nat.le_refl _)
  refine ⟨⟨h.staged.sound.newBlock h.size_pos label written, ?_, ?_, ?_, ?_⟩, .inr h.here⟩
  · rintro id (rfl | hId)
    · rw [hSize]
      exact Nat.lt_succ_self _
    · rw [hSize]
      exact Nat.lt_succ_of_lt (h.staged.known id hId)
  · rintro id (rfl | hId) instruction hMem
    · rw [Function.bodyAt_newBlock, hEmpty] at hMem
      cases hMem
    · rw [Function.bodyAt_newBlock] at hMem
      exact h.staged.unfinished id hId instruction hMem
  · intro id hId hClosed
    rw [Function.bodyAt_newBlock]
    rw [hSize] at hId
    have hNe : id ≠ d.function.blocks.nextId := fun hEq => hClosed (.inl hEq)
    refine h.staged.finished id ?_ fun hMem => hClosed (.inr hMem)
    exact Nat.lt_of_le_of_ne (Nat.le_of_lt_succ hId) fun hEq => hNe ((Id.eq_iff _ _).mpr hEq)
  · intro id
    rw [Function.bodyAt_newBlock]
    exact h.staged.calls id

/-- A new slot, with its `alloca` in the first block. -/
theorem newSlot (name : String) :
    ({ d with function := d.function.newSlot ⟨0⟩ { ty := .i32, name } } : Draft).Ready context plan ∧
      Flow plan d plan { d with function := d.function.newSlot ⟨0⟩ { ty := .i32, name } } := by
  have hWidens := Function.widens_newSlot h.size_pos { ty := .i32, name }
  have hSize : (d.function.newSlot ⟨0⟩ { ty := .i32, name }).blocks.size = d.function.blocks.size :=
    Table.size_modify _ _ _
  refine ⟨⟨⟨h.staged.sound.newSlot h.size_pos rfl, ?_, ?_, ?_, ?_⟩, h.here⟩,
    .straight h (.of_widens _ _ hWidens)⟩
  · intro id hId
    rw [hSize]
    exact h.staged.known id hId
  · intro id hId
    rw [hWidens.body]
    exact h.staged.unfinished id hId
  · intro id hId hClosed
    rw [hWidens.body]
    exact h.staged.finished id (hSize ▸ hId) hClosed
  · intro id
    rw [hWidens.body]
    exact h.staged.calls id

section Add

variable {f : Function} {instruction : Instruction} (hBlocks : f.blocks.size = d.function.blocks.size)
  (hBody : ∀ id, f.bodyAt id =
    if id = d.block then d.function.bodyAt id ++ [instruction] else d.function.bodyAt id)
  (hSound : f.Sound context.signature? plan.entering) (hConforms : instruction.Conforms context)
include hBody hConforms

theorem calls_add (id : BlockId) (other : Instruction) (hOther : other ∈ f.bodyAt id) :
    other.Conforms context := by
  rw [hBody] at hOther
  split at hOther
  · rcases List.mem_append.mp hOther with hOther | hOther
    · exact h.staged.calls id other hOther
    · rw [List.mem_singleton.mp hOther]
      exact hConforms
  · exact h.staged.calls id other hOther

include hBlocks hSound

/-- The current block stays open. -/
theorem staged_add (hTerminator : instruction.isTerminator = false) : f.Staged context plan := by
  refine ⟨hSound, ?_, ?_, ?_, h.calls_add hBody hConforms⟩
  · intro id hId
    rw [hBlocks]
    exact h.staged.known id hId
  · intro id hId other hOther
    rw [hBody] at hOther
    split at hOther
    · rcases List.mem_append.mp hOther with hOther | hOther
      · exact h.staged.unfinished id hId other hOther
      · rw [List.mem_singleton.mp hOther]
        exact hTerminator
    · exact h.staged.unfinished id hId other hOther
  · intro id hId hClosed
    have hNe : id ≠ d.block := fun hEq => hClosed (hEq ▸ h.here)
    rw [hBody, if_neg hNe]
    exact h.staged.finished id (hBlocks ▸ hId) hClosed

/-- The current block gets its terminator. -/
theorem staged_close (hTerminator : instruction.isTerminator = true) :
    f.Staged context (plan.close d.block) := by
  refine ⟨hSound, ?_, ?_, ?_, h.calls_add hBody hConforms⟩
  · intro id hId
    rw [hBlocks]
    exact h.staged.known id hId.1
  · intro id hId
    have hNe : id ≠ d.block := hId.2
    rw [hBody, if_neg hNe]
    exact h.staged.unfinished id hId.1
  · intro id hId hClosed
    rw [hBody]
    split
    · rename_i hEq
      rw [hEq]
      exact ⟨_, instruction, rfl, hTerminator, h.staged.unfinished _ h.here⟩
    · rename_i hNe
      exact h.staged.finished id (hBlocks ▸ hId) fun hMem => hClosed ⟨hMem, hNe⟩

end Add

/-- An instruction that writes a fresh register. -/
theorem emit {ty : Ty} (hTy : ty ≠ .void) {instruction : Instruction}
    (hDestination : instruction.destination? = some d.function.registers.nextId)
    (hPhi : instruction.isPhi = true → d.function.bodyAt d.block = [] ∧ d.block ≠ ⟨0⟩)
    (hOperands : instruction.isPhi = false →
      ∀ value ∈ instruction.operands, ∃ ty, Usable plan d value ty)
    (hPhis : ∀ destination sources, instruction = .phi destination sources →
      ∀ source value, (source, value) ∈ sources.entries →
        ∃ ty, Usable plan { d with block := source } value ty)
    (hSlot : ∀ id, instruction.slot? = some id → id.index < d.function.slots.size)
    (hTyped : instruction.Typed (d.function.newRegister ty))
    (hPlaced : instruction.Placed context.signature? (d.function.newRegister ty)
      (d.function.predecessorsAt d.block)) (hConforms : instruction.Conforms context) :
    let d' : Draft := { d with function := (d.function.newRegister ty).add d.block instruction }
    d'.Ready context plan ∧ d.function.Grows d'.function ∧
      (∀ id, d'.function.bodyAt id =
        if id = d.block then d.function.bodyAt id ++ [instruction] else d.function.bodyAt id) ∧
      Usable plan d' (.register d.function.registers.nextId) ty := by
  intro d'
  have hAlloca : instruction.isAlloca = false := by
    cases instruction with
    | alloca _ => cases hDestination
    | load _ _ | store _ _ | arith _ _ _ _ | compare _ _ _ _ | extend _ _ _ | call _ _ _ | phi _ _
    | jump _ | branch _ _ _ | ret _ => rfl
  have hTerminator : instruction.isTerminator = false := by
    cases instruction with
    | jump _ | branch _ _ _ | ret _ => cases hDestination
    | alloca _ | load _ _ | store _ _ | arith _ _ _ _ | compare _ _ _ _ | extend _ _ _ | call _ _ _
    | phi _ _ => rfl
  have hHere : d.block.index < (d.function.newRegister ty).blocks.size := h.block_lt
  have hBody := fun id => Function.bodyAt_add (d.function.newRegister ty) hHere hAlloca id
  have hWidens := Function.widens_newRegister d.function ty
  have hReads : ∀ id ∈ instruction.reads, id.index < d.function.registers.size := by
    intro id hId
    cases instruction with
    | phi destination sources =>
      obtain ⟨value, hValue, hId⟩ := List.mem_filterMap.mp hId
      obtain ⟨⟨source, other⟩, hEntry, rfl⟩ := List.mem_map.mp hValue
      obtain ⟨_, hUsable⟩ := hPhis destination sources rfl source other hEntry
      exact Function.operandType?_lt hUsable.typed id hId
    | alloca _ | load _ _ | store _ _ | arith _ _ _ _ | compare _ _ _ _ | extend _ _ _ | call _ _ _
    | jump _ | branch _ _ _ | ret _ => exact reads_lt_of_usable (hOperands rfl) id hId
  have hFits : instruction.Fits context.signature? (d.function.newRegister ty)
      (d.function.predecessorsAt d.block) := by
    refine ⟨?_, ?_, hSlot, hTyped, hPlaced⟩
    · intro id hId
      exact Nat.lt_of_lt_of_le (hReads id hId) hWidens.grows.registers.size_le
    · intro id hId
      rw [hDestination] at hId
      cases hId
      simp [Function.newRegister]
  have hSound := h.staged.sound.emit h.block_lt (h.staged.unfinished _ h.here) hTy hDestination hFits
    hPhi (fun hIsPhi => reads_written_of_usable (hOperands hIsPhi)) (by
      intro destination sources hEq source register hSource
      obtain ⟨_, hUsable⟩ := hPhis destination sources hEq source _ hSource
      exact hUsable.written register rfl)
  refine ⟨⟨?_, h.here⟩, hWidens.grows.trans (Function.grows_add hHere hAlloca), hBody, ?_, ?_⟩
  · exact h.staged_add (Function.size_add _ _ _) hBody hSound hConforms hTerminator
  · change ((d.function.newRegister ty).add d.block instruction).registers.get? _ = some ty
    rw [Function.registers_add]
    exact (Table.get?_push _ _ _).trans (if_pos rfl)
  · intro id hId
    cases hId
    refine .inr ?_
    rw [Function.definesAt_add (d.function.newRegister ty) hHere hAlloca, if_pos rfl, hDestination]
    exact List.mem_append_right _ List.mem_cons_self

theorem emit_straight {ty : Ty} (hTy : ty ≠ .void) {instruction : Instruction}
    (hDestination : instruction.destination? = some d.function.registers.nextId)
    (hPhi : instruction.isPhi = false)
    (hOperands : ∀ value ∈ instruction.operands, ∃ ty, Usable plan d value ty)
    (hSlot : ∀ id, instruction.slot? = some id → id.index < d.function.slots.size)
    (hTyped : instruction.Typed (d.function.newRegister ty))
    (hPlaced : instruction.Placed context.signature? (d.function.newRegister ty)
      (d.function.predecessorsAt d.block)) (hConforms : instruction.Conforms context) :
    let d' : Draft := { d with function := (d.function.newRegister ty).add d.block instruction }
    d'.Ready context plan ∧ Flow plan d plan d' ∧
      Usable plan d' (.register d.function.registers.nextId) ty := by
  intro d'
  obtain ⟨hReady, hGrows, hBody, hUsable⟩ := h.emit hTy hDestination
    (fun hIsPhi => by rw [hPhi] at hIsPhi; cases hIsPhi) (fun _ => hOperands)
    (fun destination sources hEq => by rw [hEq] at hPhi; cases hPhi) hSlot hTyped hPlaced hConforms
  refine ⟨hReady, .straight h ⟨hGrows, ?_, ?_, fun _ _ => rfl⟩, hUsable⟩
  · intro id _ hNe
    rw [hBody, if_neg hNe]
  · intro hNone other hOther
    rw [hBody, if_pos rfl] at hOther
    rcases List.mem_append.mp hOther with hOther | hOther
    · exact hNone other hOther
    · rw [List.mem_singleton.mp hOther]
      exact hPhi

section NoResult

variable {instruction : Instruction} (hAlloca : instruction.isAlloca = false)
  (hPhi : instruction.isPhi = false) (hDestination : instruction.destination? = none)
  (hOperands : ∀ value ∈ instruction.operands, ∃ ty, Usable plan d value ty)
  (hSlot : ∀ id, instruction.slot? = some id → id.index < d.function.slots.size)
  (hTyped : instruction.Typed d.function)
  (hPlaced : instruction.Placed context.signature? d.function (d.function.predecessorsAt d.block))
include hAlloca hPhi hDestination hOperands hSlot hTyped hPlaced

theorem sound_add (hTargets : ∀ target ∈ instruction.targets, target ≠ ⟨0⟩ ∧
      (∀ other ∈ d.function.bodyAt target, other.isPhi = false) ∧
      ∀ register, plan.entering target register →
        d.function.Leaving plan.entering d.block register) :
    (d.function.add d.block instruction).Sound context.signature? plan.entering := by
  refine h.staged.sound.add h.block_lt (h.staged.unfinished _ h.here) hAlloca hPhi hDestination
    ⟨reads_lt_of_usable hOperands, ?_, hSlot, hTyped, hPlaced⟩ (reads_written_of_usable hOperands)
    hTargets
  intro id hId
  rw [hDestination] at hId
  cases hId

/-- An instruction that has no result and does not end the block. -/
theorem append (hTerminator : instruction.isTerminator = false)
    (hConforms : instruction.Conforms context) :
    let d' : Draft := { d with function := d.function.add d.block instruction }
    d'.Ready context plan ∧ Flow plan d plan d' := by
  intro d'
  have hSound := h.sound_add hAlloca hPhi hDestination hOperands hSlot hTyped hPlaced (by
    intro target hTarget
    rw [Instruction.isTerminator_of_mem_targets hTarget] at hTerminator
    cases hTerminator)
  refine ⟨⟨?_, h.here⟩, .straight h (.add h.block_lt hAlloca hPhi rfl)⟩
  exact h.staged_add (Function.size_add _ _ _)
    (fun id => Function.bodyAt_add _ h.block_lt hAlloca id) hSound hConforms hTerminator

/-- A terminator, after which the draft goes on in another open block. -/
theorem leave (hTerminator : instruction.isTerminator = true)
    (hTargets : ∀ target ∈ instruction.targets, target ≠ ⟨0⟩ ∧
      (∀ other ∈ d.function.bodyAt target, other.isPhi = false) ∧
      ∀ register, plan.entering target register →
        d.function.Leaving plan.entering d.block register)
    {next : BlockId} (hNext : next ∈ plan.frontier) (hNe : next ≠ d.block) :
    (⟨d.function.add d.block instruction, next⟩ : Draft).Ready context (plan.close d.block) := by
  refine ⟨h.staged_close (Function.size_add _ _ _)
    (fun id => Function.bodyAt_add _ h.block_lt hAlloca id) ?_ ?_ hTerminator, hNext, hNe⟩
  · exact h.sound_add hAlloca hPhi hDestination hOperands hSlot hTyped hPlaced hTargets
  · cases instruction with
    | jump _ | branch _ _ _ | ret _ => trivial
    | alloca _ | load _ _ | store _ _ | arith _ _ _ _ | compare _ _ _ _ | extend _ _ _ | call _ _ _
    | phi _ _ => cases hTerminator

end NoResult

/-- The end of a function. -/
theorem ret (value : Option Operand) (hOperands : ∀ operand, value = some operand →
      Usable plan d operand d.function.signature.result)
    (hVoid : value = none → d.function.signature.result = .void) :
    (d.function.add d.block (.ret value)).Staged context (plan.close d.block) := by
  have hTyped : (Instruction.ret value).Typed d.function := by
    cases value with
    | none => trivial
    | some operand => exact (hOperands operand rfl).typed
  have hPlaced : (Instruction.ret value).Placed context.signature? d.function
      (d.function.predecessorsAt d.block) := by
    cases value with
    | none => exact hVoid rfl
    | some operand => trivial
  refine h.staged_close (Function.size_add _ _ _)
    (fun id => Function.bodyAt_add _ h.block_lt rfl id) ?_ trivial rfl
  refine h.sound_add rfl rfl rfl ?_ (fun _ hSlot => by cases hSlot) hTyped hPlaced
    fun _ hTarget => by cases hTarget
  intro operand hOperand
  exact ⟨_, hOperands operand (Option.mem_toList.mp hOperand)⟩

theorem jump {target next : BlockId} (hTarget : target.index < d.function.blocks.size)
    (hEntry : target ≠ ⟨0⟩)
    (hPhis : ∀ other ∈ d.function.bodyAt target, other.isPhi = false)
    (hWritten : ∀ register, plan.entering target register →
      d.function.Leaving plan.entering d.block register)
    (hNext : next ∈ plan.frontier) (hNe : next ≠ d.block) :
    (⟨d.function.add d.block (.jump target), next⟩ : Draft).Ready context (plan.close d.block) := by
  have hTyped : (Instruction.jump target).Typed d.function := trivial
  refine h.leave rfl rfl rfl (fun _ hValue => by cases hValue) (fun _ hSlot => by cases hSlot)
    hTyped hTarget rfl ?_ hNext hNe
  intro other hOther
  rw [List.mem_singleton.mp hOther]
  exact ⟨hEntry, hPhis, hWritten⟩

theorem branch {condition : Operand} {positive negative next : BlockId}
    (hCondition : Usable plan d condition .i1)
    (hTargets : ∀ target, target = positive ∨ target = negative →
      target.index < d.function.blocks.size ∧ target ≠ ⟨0⟩ ∧
      (∀ other ∈ d.function.bodyAt target, other.isPhi = false) ∧
      ∀ register, plan.entering target register →
        d.function.Leaving plan.entering d.block register)
    (hNext : next ∈ plan.frontier) (hNe : next ≠ d.block) :
    (⟨d.function.add d.block (.branch condition positive negative), next⟩ : Draft).Ready context
      (plan.close d.block) := by
  have hTyped : (Instruction.branch condition positive negative).Typed d.function := hCondition.typed
  refine h.leave rfl rfl rfl ?_ (fun _ hSlot => by cases hSlot) hTyped
    ⟨(hTargets positive (.inl rfl)).1, (hTargets negative (.inr rfl)).1⟩ rfl ?_ hNext hNe
  · intro value hValue
    rw [List.mem_singleton.mp hValue]
    exact ⟨.i1, hCondition⟩
  · intro target hTarget
    exact (hTargets target (List.mem_pair.mp hTarget)).2

/-- Two open blocks meet in a third one. -/
theorem join {x y join : BlockId} (hx : x ∈ plan.frontier) (hy : y ∈ plan.frontier)
    (hJoin : join ∈ plan.frontier) (hxy : x ≠ y) (hxj : x ≠ join) (hyj : y ≠ join)
    (hEntry : join ≠ ⟨0⟩) (hEmpty : d.function.bodyAt join = [])
    (hWritten : ∀ register, plan.entering join register →
      d.function.Leaving plan.entering x register ∧ d.function.Leaving plan.entering y register) :
    let f := (d.function.add x (.jump join)).add y (.jump join)
    (⟨f, join⟩ : Draft).Ready context ((plan.close x).close y) ∧ f.bodyAt join = [] ∧
      ∀ source, join ∈ f.successorsAt source ↔
        join ∈ d.function.successorsAt source ∨ source = x ∨ source = y := by
  intro f
  have hxLess := h.staged.known x hx
  have hNone : ∀ other ∈ d.function.bodyAt join, other.isPhi = false := by
    rw [hEmpty]
    exact fun _ hMem => by cases hMem
  have hFirst : (⟨d.function.add x (.jump join), y⟩ : Draft).Ready context (plan.close x) :=
    (h.moveTo hx).jump (h.staged.known join hJoin) hEntry hNone
      (fun register hRegister => (hWritten register hRegister).1) hy hxy.symm
  have hyLess : y.index < (d.function.add x (.jump join)).blocks.size := hFirst.block_lt
  have hEmpty₁ : (d.function.add x (.jump join)).bodyAt join = [] := by
    rw [Function.bodyAt_add _ hxLess rfl, if_neg hxj.symm, hEmpty]
  refine ⟨?_, ?_, ?_⟩
  · refine hFirst.jump (hFirst.staged.known join ⟨hJoin, hxj.symm⟩) hEntry ?_ (fun register hRegister =>
      (Function.grows_add hxLess rfl).leaving (hWritten register hRegister).2) ⟨hJoin, hxj.symm⟩ hyj.symm
    rw [hEmpty₁]
    exact fun _ hMem => by cases hMem
  · rw [Function.bodyAt_add _ hyLess rfl, if_neg hyj.symm, hEmpty₁]
  · intro source
    rw [Function.successorsAt_add _ hyLess rfl, Function.successorsAt_add _ hxLess rfl]
    split <;> split <;> simp_all [Instruction.targets]

/-- The value of a block with two predecessors. -/
theorem phi {x y : BlockId} {first second : Operand} {ty : Ty} (hTy : ty ≠ .void)
    (hEmpty : d.function.bodyAt d.block = []) (hEntry : d.block ≠ ⟨0⟩)
    (hSources : ∀ source, d.block ∈ d.function.successorsAt source ↔ source = x ∨ source = y)
    (hFirst : Usable plan { d with block := x } first ty)
    (hSecond : Usable plan { d with block := y } second ty) :
    let phi : Instruction := .phi d.function.registers.nextId (.ofList [(x, first), (y, second)])
    let d' : Draft := { d with function := (d.function.newRegister ty).add d.block phi }
    d'.Ready context plan ∧ d.function.Grows d'.function ∧
      (∀ id, d'.function.bodyAt id =
        if id = d.block then d.function.bodyAt id ++ [phi] else d.function.bodyAt id) ∧
      Usable plan d' (.register d.function.registers.nextId) ty := by
  intro phi d'
  have hSorted := (IdMap.sorted_empty.insert x first).insert y second
  have hGet : ∀ source, ((IdMap.empty.insert x first).insert y second).get? source =
      if source = y then some second else if source = x then some first else none := by
    intro source
    rw [IdMap.get?_insert, IdMap.get?_insert, IdMap.get?_empty]
  have hUsable : ∀ source value,
      (source, value) ∈ ((IdMap.empty.insert x first).insert y second).entries →
      Usable plan { d with block := source } value ty := by
    intro source value hEntry
    rw [hSorted.mem_entries_iff, hGet] at hEntry
    split at hEntry
    · rename_i hEq
      cases hEntry
      rw [hEq]
      exact hSecond
    · split at hEntry
      · rename_i hEq
        cases hEntry
        rw [hEq]
        exact hFirst
      · cases hEntry
  refine h.emit hTy rfl (fun _ => ⟨hEmpty, hEntry⟩) (fun hPhi => by cases hPhi) ?_
    (fun _ hSlot => by cases hSlot) ?_ ?_ trivial
  · intro destination sources hEq source value hEntry
    obtain ⟨-, hEq⟩ := Instruction.phi.inj hEq
    rw [← hEq] at hEntry
    exact ⟨ty, hUsable source value hEntry⟩
  · intro value hValue
    obtain ⟨⟨source, other⟩, hEntry, rfl⟩ := List.mem_map.mp hValue
    have hTyped := (hUsable source other hEntry).typed
    refine ((Function.widens_newRegister d.function ty).grows.operandType? hTyped).trans ?_
    exact ((Table.get?_push _ _ _).trans (if_pos rfl)).symm
  · have hKeys := (IdMap.sorted_iff_keys _).mp hSorted
    refine congrArg IdSet.ids (hKeys.ext (h.staged.sound.wired.sorted d.block) fun source => ?_)
    rw [h.staged.sound.wired.predecessors, hSources, IdMap.keys_insert, IdMap.keys_insert,
      IdSet.mem_insert, IdSet.mem_insert]
    simp [IdMap.keys, IdMap.empty, or_comm]

end Ready
end Draft
end Slate
