import Slate.Proofs.Draft
import Slate.Proofs.Lists

/-! # Invariants of functions under construction

Four statements hold of a function at every moment while its body is being written: what stands around
the bodies is in order (`Framed`), instructions and edges keep the rules (`Wired`), registers are written
once (`Single`), and registers are written before they are read (`Dominated`). The last one is relative
to a choice, for every block, of the registers that are surely written when control gets there.
-/

namespace Slate
set_option autoImplicit false

namespace Instruction

/-- A body reads only registers of the given set and those it has written before. A phi reads
where its edges start and not here. -/
def ReadsOnly (written : RegisterId → Prop) : List Instruction → Prop
  | [] => True
  | first :: rest =>
    (first.isPhi = false → ∀ id ∈ first.reads, written id) ∧
      ReadsOnly (fun id => written id ∨ first.destination? = some id) rest

theorem readsOnly_append (written : RegisterId → Prop) (code : List Instruction)
    (instruction : Instruction) : ReadsOnly written (code ++ [instruction]) ↔
      ReadsOnly written code ∧ (instruction.isPhi = false → ∀ id ∈ instruction.reads,
        written id ∨ id ∈ code.filterMap destination?) := by
  induction code generalizing written with
  | nil => simp [ReadsOnly]
  | cons first rest ih =>
    rw [List.cons_append, ReadsOnly, ih, ReadsOnly, and_assoc]
    refine and_congr_right fun _ => and_congr_right fun _ => ?_
    refine forall_congr' fun _ => forall₂_congr fun id _ => ?_
    rw [or_assoc]
    refine or_congr_right ?_
    cases hWritten : first.destination? with
    | none => simp [List.filterMap_cons_none hWritten]
    | some found =>
      rw [List.filterMap_cons_some hWritten, List.mem_cons, Option.some.injEq]
      exact or_congr_left eq_comm

end Instruction

namespace Function

/-- The registers that are surely written when control gets to a block. -/
abbrev Entering := BlockId → RegisterId → Prop

/-- Surely written at the end of a block. -/
def Leaving (function : Function) (entering : Entering) (id : BlockId) (register : RegisterId) :
    Prop :=
  entering id register ∨ register ∈ function.definesAt id

/-- The `alloca`s of all slots, which stand in the first block. -/
def prologueAt (function : Function) (id : BlockId) : List Instruction :=
  if id.index = 0 then (List.range function.slots.size).map fun n => .alloca ⟨n⟩ else []

structure Framed (function : Function) : Prop where
  code : ∀ id, function.codeAt id = function.prologueAt id ++ function.bodyAt id
  noAlloca : ∀ id, ∀ instruction ∈ function.bodyAt id, instruction.isAlloca = false
  slots : ∀ id row, function.slots.get? id = some row → row.ty = .i32
  registers : ∀ id ty, function.registers.get? id = some ty → ty ≠ .void
  parameters : function.parameters = (List.range function.parameters.length).map Id.mk
  parameterTypes : ∀ id ∈ function.parameters, function.registers.get? id = some .i32
  arity : function.parameters.length = function.signature.parameters.length

structure Wired (signature? : FunctionId → Option Signature) (function : Function) : Prop where
  fits : ∀ id, ∀ instruction ∈ function.bodyAt id,
    instruction.Fits signature? function (function.predecessorsAt id)
  straight : ∀ id, ∀ instruction ∈ (function.bodyAt id).dropLast, instruction.isTerminator = false
  phisFirst : ∀ id, Instruction.PhisFirst (function.bodyAt id)
  entryPhi : ∀ instruction ∈ function.bodyAt ⟨0⟩, instruction.isPhi = false
  entryTarget : ∀ id, ⟨0⟩ ∉ function.successorsAt id
  sorted : ∀ id, (function.predecessorsAt id).Sorted
  predecessors : ∀ id source, source ∈ (function.predecessorsAt id).ids ↔
    id ∈ function.successorsAt source

structure Single (function : Function) : Prop where
  once : ∀ id, (function.definesAt id).Nodup
  apart : ∀ id other register, register ∈ function.definesAt id →
    register ∈ function.definesAt other → id = other
  fresh : ∀ id register, register ∈ function.definesAt id →
    function.parameters.length ≤ register.index ∧ register.index < function.registers.size
  total : ∀ register : RegisterId, function.parameters.length ≤ register.index →
    register.index < function.registers.size → ∃ id, register ∈ function.definesAt id

structure Dominated (entering : Entering) (function : Function) : Prop where
  reads : ∀ id, Instruction.ReadsOnly (entering id) (function.bodyAt id)
  phis : ∀ id destination sources, .phi destination sources ∈ function.bodyAt id →
    ∀ source register, (source, .register register) ∈ sources.entries →
      function.Leaving entering source register
  edges : ∀ id target, target ∈ function.successorsAt id → ∀ register,
    entering target register → function.Leaving entering id register
  start : ∀ register, entering ⟨0⟩ register → register ∈ function.parameters

structure Sound (signature? : FunctionId → Option Signature) (entering : Entering)
    (function : Function) : Prop where
  framed : function.Framed
  wired : function.Wired signature?
  single : function.Single
  dominated : function.Dominated entering

/-- One function continues another: tables and bodies only get longer. -/
structure Grows (function function' : Function) : Prop where
  name : function'.name = function.name
  signature : function'.signature = function.signature
  linkage : function'.linkage = function.linkage
  parameters : function'.parameters = function.parameters
  registers : function.registers.Grows function'.registers
  slots : function.slots.Grows function'.slots
  blocks : function.blocks.size ≤ function'.blocks.size
  body : ∀ id, function.bodyAt id <+: function'.bodyAt id

namespace Grows

theorem refl (function : Function) : function.Grows function :=
  ⟨rfl, rfl, rfl, rfl, Table.Grows.refl _, Table.Grows.refl _, Nat.le_refl _,
    fun _ => List.prefix_rfl⟩

theorem trans {f g h : Function} (hfg : f.Grows g) (hgh : g.Grows h) : f.Grows h :=
  ⟨hgh.name.trans hfg.name, hgh.signature.trans hfg.signature, hgh.linkage.trans hfg.linkage,
    hgh.parameters.trans hfg.parameters, hfg.registers.trans hgh.registers,
    hfg.slots.trans hgh.slots, Nat.le_trans hfg.blocks hgh.blocks,
    fun id => (hfg.body id).trans (hgh.body id)⟩

variable {f g : Function} (h : f.Grows g)
include h

theorem operandType? {value : Operand} {ty : Ty} (hTy : f.operandType? value = some ty) :
    g.operandType? value = some ty := by
  cases value with
  | const value => exact hTy
  | register id => exact h.registers id ty hTy

theorem definesAt {id : BlockId} {register : RegisterId} (hMem : register ∈ f.definesAt id) :
    register ∈ g.definesAt id :=
  ((h.body id).filterMap Instruction.destination?).subset hMem

theorem leaving {entering : Entering} {id : BlockId} {register : RegisterId}
    (hMem : f.Leaving entering id register) : g.Leaving entering id register :=
  hMem.imp_right h.definesAt

end Grows

theorem operandType?_lt {function : Function} {value : Operand} {ty : Ty}
    (h : function.operandType? value = some ty) :
    ∀ id, value.register? = some id → id.index < function.registers.size := by
  intro id hId
  cases value with
  | const value => cases hId
  | register register =>
    cases hId
    exact Table.lt_of_get? h

end Function

namespace Instruction

variable {signature? : FunctionId → Option Signature} {f g : Function} {p : IdSet .block}
  {instruction : Instruction}

theorem Fits.exists_operandType? (h : instruction.Fits signature? f p) (value : Operand)
    (hValue : value ∈ instruction.operands) : ∃ ty, f.operandType? value = some ty :=
  Verify.operandType?_of_reads h.reads value hValue

theorem Fits.typed_of_grows (h : instruction.Fits signature? f p) (hGrows : f.Grows g) :
    instruction.Typed g := by
  have hTyped := h.typed
  have hKept : ∀ value ∈ instruction.operands, g.operandType? value = f.operandType? value := by
    intro value hValue
    obtain ⟨ty, hTy⟩ := h.exists_operandType? value hValue
    rw [hTy, hGrows.operandType? hTy]
  cases instruction with
  | arith op destination lhs rhs =>
    exact ⟨hGrows.operandType? hTyped.1, hGrows.operandType? hTyped.2⟩
  | compare predicate destination lhs rhs =>
    rw [Typed, hKept lhs (by simp [operands]), hKept rhs (by simp [operands])]
    exact hTyped
  | store slot value =>
    obtain ⟨row, hRow⟩ := Table.exists_of_lt (h.slot slot rfl)
    intro other hOther
    rw [hGrows.slots slot row hRow] at hOther
    cases hOther
    exact hGrows.operandType? (hTyped row hRow)
  | branch condition positive negative => exact hGrows.operandType? hTyped
  | phi destination sources =>
    obtain ⟨ty, hTy⟩ := Table.exists_of_lt (h.writes destination rfl)
    intro value hValue
    rw [hKept value hValue, hTyped value hValue, hTy, hGrows.registers destination ty hTy]
  | ret value =>
    cases value with
    | none => trivial
    | some value =>
      rw [Typed, hGrows.signature]
      exact hGrows.operandType? hTyped
  | alloca _ | load _ _ | extend _ _ _ | call _ _ _ | jump _ => trivial

theorem Fits.placed_of_grows (h : instruction.Fits signature? f p) (hGrows : f.Grows g) :
    instruction.Placed signature? g p := by
  have hPlaced := h.placed
  have hBlocks := hGrows.blocks
  cases instruction with
  | jump target => exact Nat.lt_of_lt_of_le hPlaced hBlocks
  | branch condition positive negative =>
    exact ⟨Nat.lt_of_lt_of_le hPlaced.1 hBlocks, Nat.lt_of_lt_of_le hPlaced.2 hBlocks⟩
  | phi destination sources => exact hPlaced
  | call callee arguments destination => exact hPlaced
  | ret value =>
    cases value with
    | none =>
      rw [Placed, hGrows.signature]
      exact hPlaced
    | some value => trivial
  | alloca _ | load _ _ | store _ _ | arith _ _ _ _ | compare _ _ _ _ | extend _ _ _ => trivial

theorem Fits.grows (h : instruction.Fits signature? f p) (hGrows : f.Grows g) :
    instruction.Fits signature? g p where
  reads id hId := Nat.lt_of_lt_of_le (h.reads id hId) hGrows.registers.size_le
  writes id hId := Nat.lt_of_lt_of_le (h.writes id hId) hGrows.registers.size_le
  slot id hId := Nat.lt_of_lt_of_le (h.slot id hId) hGrows.slots.size_le
  typed := h.typed_of_grows hGrows
  placed := h.placed_of_grows hGrows

/-- Only a phi depends on the predecessors of its block. -/
theorem Fits.of_not_phi (h : instruction.Fits signature? f p) (hPhi : instruction.isPhi = false)
    (q : IdSet .block) : instruction.Fits signature? f q := by
  refine ⟨h.reads, h.writes, h.slot, h.typed, ?_⟩
  have hPlaced := h.placed
  cases instruction with
  | phi destination sources => cases hPhi
  | ret value => cases value <;> exact hPlaced
  | alloca _ | load _ _ | store _ _ | arith _ _ _ _ | compare _ _ _ _ | extend _ _ _ | call _ _ _
  | jump _ | branch _ _ _ => exact hPlaced

theorem Fits.target_lt (h : instruction.Fits signature? f p) {target : BlockId}
    (hTarget : target ∈ instruction.targets) : target.index < f.blocks.size := by
  have hPlaced := h.placed
  cases instruction with
  | jump destination =>
    rw [List.mem_singleton.mp hTarget]
    exact hPlaced
  | branch condition positive negative =>
    rcases List.mem_cons.mp hTarget with rfl | hTarget
    · exact hPlaced.1
    · rw [List.mem_singleton.mp hTarget]
      exact hPlaced.2
  | alloca _ | load _ _ | store _ _ | arith _ _ _ _ | compare _ _ _ _ | extend _ _ _ | call _ _ _
  | phi _ _ | ret _ => cases hTarget

theorem isPhi_of_mem_targets {target : BlockId} (h : target ∈ instruction.targets) :
    instruction.isPhi = false := by
  cases instruction with
  | phi _ _ => cases h
  | alloca _ | load _ _ | store _ _ | arith _ _ _ _ | compare _ _ _ _ | extend _ _ _ | call _ _ _
  | jump _ | branch _ _ _ | ret _ => rfl

theorem phisFirst_append {code : List Instruction} (h : PhisFirst code)
    (hPhi : instruction.isPhi = false) : PhisFirst (code ++ [instruction]) := by
  intro other hOther
  rw [List.dropWhile_append] at hOther
  split at hOther
  · rw [List.dropWhile_cons_of_neg (by simp [hPhi]), List.mem_singleton] at hOther
    rw [hOther]
    exact hPhi
  · rcases List.mem_append.mp hOther with hOther | hOther
    · exact h other hOther
    · rw [List.mem_singleton.mp hOther]
      exact hPhi

end Instruction

namespace Function

section Steps

variable {signature? : FunctionId → Option Signature} {entering : Entering} {f g : Function}

/-- The same bodies and edges, perhaps among more registers, slots or blocks. -/
structure Widens (f g : Function) : Prop where
  grows : f.Grows g
  body : ∀ id, g.bodyAt id = f.bodyAt id
  predecessors : ∀ id, g.predecessorsAt id = f.predecessorsAt id

namespace Widens

variable (h : f.Widens g)
include h

theorem definesAt (id : BlockId) : g.definesAt id = f.definesAt id := by
  rw [Function.definesAt, h.body, Function.definesAt]

theorem successorsAt (id : BlockId) : g.successorsAt id = f.successorsAt id := by
  rw [Function.successorsAt, h.body, Function.successorsAt]

theorem leaving (id : BlockId) (register : RegisterId) :
    g.Leaving entering id register ↔ f.Leaving entering id register := by
  rw [Leaving, h.definesAt, Leaving]

theorem wired (hWired : f.Wired signature?) : g.Wired signature? where
  fits id instruction hMem := by
    rw [h.body] at hMem
    rw [h.predecessors]
    exact (hWired.fits id instruction hMem).grows h.grows
  straight id := by
    rw [h.body]
    exact hWired.straight id
  phisFirst id := by
    rw [h.body]
    exact hWired.phisFirst id
  entryPhi := by
    rw [h.body]
    exact hWired.entryPhi
  entryTarget id := by
    rw [h.successorsAt]
    exact hWired.entryTarget id
  sorted id := by
    rw [h.predecessors]
    exact hWired.sorted id
  predecessors id source := by
    rw [h.predecessors, h.successorsAt]
    exact hWired.predecessors id source

theorem dominated (hDominated : f.Dominated entering) : g.Dominated entering where
  reads id := by
    rw [h.body]
    exact hDominated.reads id
  phis id destination sources hMem source register hSource := by
    rw [h.body] at hMem
    rw [h.leaving]
    exact hDominated.phis id destination sources hMem source register hSource
  edges id target hTarget register hRegister := by
    rw [h.successorsAt] at hTarget
    rw [h.leaving]
    exact hDominated.edges id target hTarget register hRegister
  start register hRegister := by
    rw [h.grows.parameters]
    exact hDominated.start register hRegister

theorem single (hRegisters : g.registers.size = f.registers.size) (hSingle : f.Single) :
    g.Single where
  once id := by
    rw [h.definesAt]
    exact hSingle.once id
  apart id other register := by
    rw [h.definesAt, h.definesAt]
    exact hSingle.apart id other register
  fresh id register := by
    rw [h.definesAt, h.grows.parameters, hRegisters]
    exact hSingle.fresh id register
  total register := by
    simp only [h.definesAt, h.grows.parameters, hRegisters]
    exact hSingle.total register

end Widens

theorem widens_newRegister (f : Function) (ty : Ty) : f.Widens (f.newRegister ty) where
  grows := ⟨rfl, rfl, rfl, rfl, Table.grows_push _ _, Table.Grows.refl _, Nat.le_refl _,
    fun _ => List.prefix_rfl⟩
  body _ := rfl
  predecessors _ := rfl

theorem widens_newBlock (f : Function) (label : String) : f.Widens (f.newBlock label) where
  grows := ⟨rfl, rfl, rfl, rfl, Table.Grows.refl _, Table.Grows.refl _,
    by simp [newBlock], fun id => by rw [bodyAt_newBlock]⟩
  body := f.bodyAt_newBlock label
  predecessors := f.predecessorsAt_newBlock label

theorem widens_newSlot {id : BlockId} (hId : id.index < f.blocks.size) (slot : Slot) :
    f.Widens (f.newSlot id slot) where
  grows := ⟨rfl, rfl, rfl, rfl, Table.Grows.refl _, Table.grows_push _ _,
    by simp [newSlot], fun other => by rw [bodyAt_newSlot f hId]⟩
  body := f.bodyAt_newSlot hId slot
  predecessors := f.predecessorsAt_newSlot id slot

theorem Framed.newRegister (h : f.Framed) {ty : Ty} (hTy : ty ≠ .void) : (f.newRegister ty).Framed where
  code := h.code
  noAlloca := h.noAlloca
  slots := h.slots
  registers id found hFound := by
    rw [Function.newRegister, Table.get?_push] at hFound
    split at hFound
    · cases hFound
      exact hTy
    · exact h.registers id found hFound
  parameters := h.parameters
  parameterTypes id hId := Table.grows_push _ _ id _ (h.parameterTypes id hId)
  arity := h.arity

theorem Framed.newBlock (h : f.Framed) (label : String) : (f.newBlock label).Framed where
  code id := by
    rw [codeAt_newBlock, bodyAt_newBlock]
    exact h.code id
  noAlloca id := by
    rw [bodyAt_newBlock]
    exact h.noAlloca id
  slots := h.slots
  registers := h.registers
  parameters := h.parameters
  parameterTypes := h.parameterTypes
  arity := h.arity

theorem addAlloca_prologue (slots : List SlotId) (slot : SlotId) {body : List Instruction}
    (h : ∀ instruction ∈ body, instruction.isAlloca = false) :
    addAlloca slot (slots.map .alloca ++ body) = (slots ++ [slot]).map .alloca ++ body := by
  have hBody : ∀ first ∈ body.head?, first.isAlloca = false :=
    fun first hFirst => h first (List.mem_of_mem_head? hFirst)
  have hSlots : ∀ instruction ∈ slots.map Instruction.alloca, instruction.isAlloca = true := by
    intro instruction hMem
    obtain ⟨id, -, rfl⟩ := List.mem_map.mp hMem
    rfl
  rw [addAlloca, takeWhile_all_append hSlots hBody, dropWhile_all_append hSlots hBody]
  simp

theorem Framed.newSlot (h : f.Framed) (hSize : 0 < f.blocks.size) {slot : Slot}
    (hSlot : slot.ty = .i32) : (f.newSlot ⟨0⟩ slot).Framed where
  code id := by
    rw [codeAt_newSlot f hSize, bodyAt_newSlot f hSize, h.code id]
    by_cases hId : id.index = 0
    · have hEntry : id = ⟨0⟩ := (Id.eq_iff _ _).mpr hId
      have hPrologue : ∀ n, (List.range n).map (fun n => Instruction.alloca ⟨n⟩) =
          ((List.range n).map Id.mk).map .alloca := by simp
      simp only [hEntry, if_true, prologueAt, hPrologue]
      rw [addAlloca_prologue _ _ (h.noAlloca ⟨0⟩)]
      have hNext : f.slots.nextId = ⟨f.slots.size⟩ := rfl
      simp [Function.newSlot, List.range_succ, hNext]
    · have hEntry : id ≠ ⟨0⟩ := fun hEq => hId (congrArg Id.index hEq)
      simp [prologueAt, hId, hEntry]
  noAlloca id := by
    rw [bodyAt_newSlot f hSize]
    exact h.noAlloca id
  slots id row hRow := by
    rw [Function.newSlot, Table.get?_push] at hRow
    split at hRow
    · cases hRow
      exact hSlot
    · exact h.slots id row hRow
  registers := h.registers
  parameters := h.parameters
  parameterTypes := h.parameterTypes
  arity := h.arity

section Add

variable {at_ : BlockId} (hAt : at_.index < f.blocks.size) {instruction : Instruction}
  (hAlloca : instruction.isAlloca = false)
include hAt hAlloca

theorem grows_add : f.Grows (f.add at_ instruction) where
  name := name_add f at_ instruction
  signature := signature_add f at_ instruction
  linkage := linkage_add f at_ instruction
  parameters := parameters_add f at_ instruction
  registers := by
    rw [registers_add]
    exact Table.Grows.refl _
  slots := by
    rw [slots_add]
    exact Table.Grows.refl _
  blocks := by rw [size_add]
  body id := by
    rw [bodyAt_add f hAt hAlloca]
    split
    · exact List.prefix_append _ _
    · exact List.prefix_rfl

theorem Framed.add (h : f.Framed) : (f.add at_ instruction).Framed where
  code id := by
    rw [codeAt_add f hAt, bodyAt_add f hAt hAlloca, prologueAt, slots_add, ← prologueAt, h.code id]
    split
    · exact List.append_assoc _ _ _
    · rfl
  noAlloca id other hOther := by
    rw [bodyAt_add f hAt hAlloca] at hOther
    split at hOther
    · rcases List.mem_append.mp hOther with hOther | hOther
      · exact h.noAlloca id other hOther
      · rw [List.mem_singleton.mp hOther]
        exact hAlloca
    · exact h.noAlloca id other hOther
  slots id row hRow := h.slots id row (by rwa [slots_add] at hRow)
  registers id ty hTy := h.registers id ty (by rwa [registers_add] at hTy)
  parameters := by
    rw [parameters_add]
    exact h.parameters
  parameterTypes id hId := by
    rw [registers_add]
    exact h.parameterTypes id (by rwa [parameters_add] at hId)
  arity := by
    rw [parameters_add, signature_add]
    exact h.arity

theorem Wired.add (h : f.Wired signature?)
    (hOpen : ∀ other ∈ f.bodyAt at_, other.isTerminator = false)
    (hFits : instruction.Fits signature? f (f.predecessorsAt at_))
    (hPhi : instruction.isPhi = true → f.bodyAt at_ = [] ∧ at_ ≠ ⟨0⟩)
    (hTargets : ∀ target ∈ instruction.targets, target ≠ ⟨0⟩ ∧
      ∀ other ∈ f.bodyAt target, other.isPhi = false) :
    (f.add at_ instruction).Wired signature? where
  fits id other hOther := by
    have hGrows := grows_add hAt hAlloca
    -- Edges are added only to blocks without phis, so no phi sees its predecessors change.
    have hOld : ∀ {found : Instruction}, found.Fits signature? f (f.predecessorsAt id) →
        (id ∈ instruction.targets → found.isPhi = false) →
        found.Fits signature? (f.add at_ instruction) ((f.add at_ instruction).predecessorsAt id) := by
      intro found hFound hTarget
      by_cases hId : id ∈ instruction.targets
      · exact (hFound.grows hGrows).of_not_phi (hTarget hId) _
      · rw [predecessorsAt_add_of_not_mem f hId]
        exact hFound.grows hGrows
    rw [bodyAt_add f hAt hAlloca] at hOther
    split at hOther
    · rename_i hEq
      subst hEq
      rcases List.mem_append.mp hOther with hOther | hOther
      · exact hOld (h.fits id other hOther) fun hId => (hTargets id hId).2 other hOther
      · rw [List.mem_singleton.mp hOther]
        exact hOld hFits fun hId => Instruction.isPhi_of_mem_targets hId
    · exact hOld (h.fits id other hOther) fun hId => (hTargets id hId).2 other hOther
  straight id other hOther := by
    rw [bodyAt_add f hAt hAlloca] at hOther
    split at hOther
    · rename_i hEq
      subst hEq
      rw [List.dropLast_concat] at hOther
      exact hOpen other hOther
    · exact h.straight id other hOther
  phisFirst id := by
    rw [bodyAt_add f hAt hAlloca]
    split
    · rename_i hEq
      subst hEq
      cases hIsPhi : instruction.isPhi with
      | false => exact Instruction.phisFirst_append (h.phisFirst id) hIsPhi
      | true =>
        rw [(hPhi hIsPhi).1]
        exact (Verify.phisFirst_cons_phi hIsPhi []).mpr fun _ hOther => by cases hOther
    · exact h.phisFirst id
  entryPhi other hOther := by
    rw [bodyAt_add f hAt hAlloca] at hOther
    split at hOther
    · rename_i hEq
      subst hEq
      rcases List.mem_append.mp hOther with hOther | hOther
      · exact h.entryPhi other hOther
      · rw [List.mem_singleton.mp hOther]
        cases hIsPhi : instruction.isPhi with
        | false => rfl
        | true => exact absurd rfl (hPhi hIsPhi).2
    · exact h.entryPhi other hOther
  entryTarget id hMem := by
    rw [successorsAt_add f hAt hAlloca] at hMem
    split at hMem
    · rcases List.mem_append.mp hMem with hMem | hMem
      · exact h.entryTarget id hMem
      · exact (hTargets _ hMem).1 rfl
    · exact h.entryTarget id hMem
  sorted id := sorted_predecessorsAt_add f (fun _ hTarget => hFits.target_lt hTarget) id (h.sorted id)
  predecessors id source := by
    rw [mem_predecessorsAt_add f (fun _ hTarget => hFits.target_lt hTarget), h.predecessors,
      successorsAt_add f hAt hAlloca]
    split
    · rename_i hEq
      rw [List.mem_append]
      exact or_congr_right (and_iff_right hEq)
    · rename_i hNe
      simp [hNe]

theorem Dominated.add (h : f.Dominated entering)
    (hReads : instruction.isPhi = false → ∀ id ∈ instruction.reads, f.Leaving entering at_ id)
    (hPhis : ∀ destination sources, instruction = .phi destination sources →
      ∀ source register, (source, .register register) ∈ sources.entries →
        f.Leaving entering source register)
    (hEdges : ∀ target ∈ instruction.targets, ∀ register, entering target register →
      f.Leaving entering at_ register) :
    (f.add at_ instruction).Dominated entering where
  reads id := by
    rw [bodyAt_add f hAt hAlloca]
    split
    · rename_i hEq
      subst hEq
      exact (Instruction.readsOnly_append _ _ _).mpr ⟨h.reads id, hReads⟩
    · exact h.reads id
  phis id destination sources hMem source register hSource := by
    refine (grows_add hAt hAlloca).leaving ?_
    rw [bodyAt_add f hAt hAlloca] at hMem
    split at hMem
    · rcases List.mem_append.mp hMem with hMem | hMem
      · exact h.phis id destination sources hMem source register hSource
      · exact hPhis destination sources (List.mem_singleton.mp hMem).symm source register hSource
    · exact h.phis id destination sources hMem source register hSource
  edges id target hTarget register hRegister := by
    refine (grows_add hAt hAlloca).leaving ?_
    rw [successorsAt_add f hAt hAlloca] at hTarget
    split at hTarget
    · rename_i hEq
      subst hEq
      rcases List.mem_append.mp hTarget with hTarget | hTarget
      · exact h.edges id target hTarget register hRegister
      · exact hEdges target hTarget register hRegister
    · exact h.edges id target hTarget register hRegister
  start register hRegister := by
    rw [parameters_add]
    exact h.start register hRegister

theorem Single.add (h : f.Single) (hDestination : instruction.destination? = none) :
    (f.add at_ instruction).Single := by
  have hDefines : ∀ id, (f.add at_ instruction).definesAt id = f.definesAt id := by
    intro id
    rw [definesAt_add f hAt hAlloca, hDestination]
    simp
  constructor
  · intro id
    rw [hDefines]
    exact h.once id
  · intro id other register
    rw [hDefines, hDefines]
    exact h.apart id other register
  · intro id register
    rw [hDefines, parameters_add, registers_add]
    exact h.fresh id register
  · intro register
    simp only [hDefines, parameters_add, registers_add]
    exact h.total register

end Add

/-- A fresh register is written by the instruction it was made for. -/
theorem Single.emit (h : f.Single) (hParameters : f.parameters.length ≤ f.registers.size)
    {at_ : BlockId} (hAt : at_.index < f.blocks.size) {instruction : Instruction} (ty : Ty)
    (hAlloca : instruction.isAlloca = false)
    (hDestination : instruction.destination? = some f.registers.nextId) :
    ((f.newRegister ty).add at_ instruction).Single := by
  have hDefines : ∀ id register, register ∈ ((f.newRegister ty).add at_ instruction).definesAt id ↔
      register ∈ f.definesAt id ∨ id = at_ ∧ register = f.registers.nextId := by
    intro id register
    rw [definesAt_add (f.newRegister ty) hAt hAlloca, hDestination]
    change register ∈ (if id = at_ then f.definesAt id ++ [f.registers.nextId] else f.definesAt id) ↔ _
    split
    · rename_i hEq
      simp [hEq]
    · rename_i hNe
      simp [hNe]
  have hSize : ((f.newRegister ty).add at_ instruction).registers.size = f.registers.size + 1 := by
    rw [registers_add]
    exact Table.size_push _ _
  have hOld : ∀ {id register}, register ∈ f.definesAt id → register ≠ f.registers.nextId := by
    rintro id register hMem rfl
    exact Nat.lt_irrefl _ (h.fresh id _ hMem).2
  constructor
  · intro id
    rw [definesAt_add (f.newRegister ty) hAt hAlloca, hDestination]
    change (if id = at_ then f.definesAt id ++ [f.registers.nextId] else f.definesAt id).Nodup
    split
    · refine List.nodup_append.mpr ⟨h.once id, List.nodup_singleton _, ?_⟩
      intro register hMem other hOther
      rw [List.mem_singleton.mp hOther]
      exact hOld hMem
    · exact h.once id
  · intro id other register hId hOther
    rcases (hDefines id register).mp hId with hLeft | ⟨hLeft, hFresh⟩
    · rcases (hDefines other register).mp hOther with hRight | ⟨-, hFresh⟩
      · exact h.apart id other register hLeft hRight
      · exact absurd hFresh (hOld hLeft)
    · rcases (hDefines other register).mp hOther with hRight | ⟨hRight, -⟩
      · exact absurd hFresh (hOld hRight)
      · exact hLeft.trans hRight.symm
  · intro id register hMem
    rw [hSize, parameters_add]
    rcases (hDefines id register).mp hMem with hMem | ⟨-, rfl⟩
    · have hFresh := h.fresh id register hMem
      exact ⟨hFresh.1, Nat.lt_succ_of_lt hFresh.2⟩
    · exact ⟨hParameters, Nat.lt_succ_self _⟩
  · intro register hLow hHigh
    rw [parameters_add] at hLow
    rw [hSize] at hHigh
    rcases Nat.lt_succ_iff_lt_or_eq.mp hHigh with hHigh | hEq
    · obtain ⟨id, hMem⟩ := h.total register hLow hHigh
      exact ⟨id, (hDefines id register).mpr (.inl hMem)⟩
    · exact ⟨at_, (hDefines at_ register).mpr (.inr ⟨rfl, (Id.eq_iff _ _).mpr hEq⟩)⟩

end Steps

/-- A choice of registers changed for one block. -/
def Entering.set (entering : Entering) (id : BlockId) (written : RegisterId → Prop) : Entering :=
  fun other => if other = id then written else entering other

theorem Entering.set_of_ne (entering : Entering) {id other : BlockId} (h : other ≠ id)
    (written : RegisterId → Prop) : entering.set id written other = entering other :=
  if_neg h

namespace Sound

variable {signature? : FunctionId → Option Signature} {entering : Entering} {f : Function}
  (h : f.Sound signature? entering)
include h

theorem parameters_le : f.parameters.length ≤ f.registers.size := by
  by_contra hLarge
  have hLast : (⟨f.registers.size⟩ : RegisterId) ∈ f.parameters := by
    rw [h.framed.parameters]
    exact List.mem_map.mpr ⟨_, List.mem_range.mpr (Nat.not_le.mp hLarge), rfl⟩
  exact Nat.lt_irrefl _ (Table.lt_of_get? (h.framed.parameterTypes _ hLast))

theorem target_lt {id target : BlockId} (hTarget : target ∈ f.successorsAt id) :
    target.index < f.blocks.size := by
  obtain ⟨instruction, hMem, hTarget⟩ := List.mem_flatMap.mp hTarget
  exact (h.wired.fits id instruction hMem).target_lt hTarget

theorem phi_source_lt {id : BlockId} {destination : RegisterId} {sources : IdMap .block Operand}
    (hMem : .phi destination sources ∈ f.bodyAt id) {source : BlockId} {value : Operand}
    (hSource : (source, value) ∈ sources.entries) : source.index < f.blocks.size := by
  have hKeys : sources.keys = (f.predecessorsAt id).ids := (h.wired.fits id _ hMem).placed
  have hKey : source ∈ sources.keys := List.mem_map.mpr ⟨_, hSource, rfl⟩
  rw [hKeys, h.wired.predecessors] at hKey
  exact f.lt_size_of_mem_successorsAt hKey

/-- What is written on the way to a new block is free to choose. -/
theorem newBlock (hSize : 0 < f.blocks.size) (label : String) (written : RegisterId → Prop) :
    (f.newBlock label).Sound signature? (entering.set f.blocks.nextId written) where
  framed := h.framed.newBlock label
  wired := (widens_newBlock f label).wired h.wired
  single := (widens_newBlock f label).single rfl h.single
  dominated := by
    have hWidens := widens_newBlock f label
    have hOld := hWidens.dominated h.dominated
    have hNe : ∀ {id : BlockId}, id.index < f.blocks.size → id ≠ f.blocks.nextId :=
      fun hLess => Id.ne_of_index_lt hLess
    have hLeaving : ∀ {id : BlockId} {register}, id.index < f.blocks.size →
        (f.newBlock label).Leaving entering id register →
        (f.newBlock label).Leaving (entering.set f.blocks.nextId written) id register := by
      intro id register hId hMem
      rwa [Leaving, entering.set_of_ne (hNe hId)]
    constructor
    · intro id
      by_cases hId : id = f.blocks.nextId
      · have hEmpty : f.bodyAt f.blocks.nextId = [] := f.bodyAt_of_size_le (Nat.le_refl _)
        rw [hId, bodyAt_newBlock, hEmpty]
        trivial
      · rw [entering.set_of_ne hId]
        exact hOld.reads id
    · intro id destination sources hMem source register hSource
      refine hLeaving ?_ (hOld.phis id destination sources hMem source register hSource)
      rw [bodyAt_newBlock] at hMem
      exact h.phi_source_lt hMem hSource
    · intro id target hTarget register hRegister
      have hTarget' := hTarget
      rw [hWidens.successorsAt] at hTarget'
      rw [entering.set_of_ne (hNe (h.target_lt hTarget'))] at hRegister
      exact hLeaving (f.lt_size_of_mem_successorsAt hTarget')
        (hOld.edges id target hTarget register hRegister)
    · intro register hRegister
      rw [entering.set_of_ne (hNe hSize)] at hRegister
      exact hOld.start register hRegister

theorem newSlot (hSize : 0 < f.blocks.size) {slot : Slot} (hSlot : slot.ty = .i32) :
    (f.newSlot ⟨0⟩ slot).Sound signature? entering where
  framed := h.framed.newSlot hSize hSlot
  wired := (widens_newSlot hSize slot).wired h.wired
  single := (widens_newSlot hSize slot).single rfl h.single
  dominated := (widens_newSlot hSize slot).dominated h.dominated

section Add

variable {at_ : BlockId} (hAt : at_.index < f.blocks.size)
  (hOpen : ∀ other ∈ f.bodyAt at_, other.isTerminator = false) {instruction : Instruction}
include hAt hOpen

/-- Adds an instruction without a result, perhaps one that ends the block. -/
theorem add (hAlloca : instruction.isAlloca = false) (hPhi : instruction.isPhi = false)
    (hDestination : instruction.destination? = none)
    (hFits : instruction.Fits signature? f (f.predecessorsAt at_))
    (hReads : ∀ id ∈ instruction.reads, f.Leaving entering at_ id)
    (hTargets : ∀ target ∈ instruction.targets, target ≠ ⟨0⟩ ∧
      (∀ other ∈ f.bodyAt target, other.isPhi = false) ∧
      ∀ register, entering target register → f.Leaving entering at_ register) :
    (f.add at_ instruction).Sound signature? entering where
  framed := h.framed.add hAt hAlloca
  wired := h.wired.add hAt hAlloca hOpen hFits (fun hIsPhi => by rw [hPhi] at hIsPhi; cases hIsPhi)
    fun target hTarget => ⟨(hTargets target hTarget).1, (hTargets target hTarget).2.1⟩
  single := h.single.add hAt hAlloca hDestination
  dominated := h.dominated.add hAt hAlloca (fun _ => hReads)
    (fun destination sources hEq => by rw [hEq] at hPhi; cases hPhi)
    fun target hTarget => (hTargets target hTarget).2.2

/-- Adds an instruction that writes a fresh register. -/
theorem emit {ty : Ty} (hTy : ty ≠ .void)
    (hDestination : instruction.destination? = some f.registers.nextId)
    (hFits : instruction.Fits signature? (f.newRegister ty) (f.predecessorsAt at_))
    (hPhi : instruction.isPhi = true → f.bodyAt at_ = [] ∧ at_ ≠ ⟨0⟩)
    (hReads : instruction.isPhi = false → ∀ id ∈ instruction.reads, f.Leaving entering at_ id)
    (hPhis : ∀ destination sources, instruction = .phi destination sources →
      ∀ source register, (source, .register register) ∈ sources.entries →
        f.Leaving entering source register) :
    ((f.newRegister ty).add at_ instruction).Sound signature? entering := by
  have hAlloca : instruction.isAlloca = false := by
    cases instruction with
    | alloca _ => cases hDestination
    | load _ _ | store _ _ | arith _ _ _ _ | compare _ _ _ _ | extend _ _ _ | call _ _ _ | phi _ _
    | jump _ | branch _ _ _ | ret _ => rfl
  have hTargets : instruction.targets = [] := by
    cases instruction with
    | jump _ | branch _ _ _ => cases hDestination
    | alloca _ | load _ _ | store _ _ | arith _ _ _ _ | compare _ _ _ _ | extend _ _ _ | call _ _ _
    | phi _ _ | ret _ => rfl
  have hWidens := widens_newRegister f ty
  have hAt' : at_.index < (f.newRegister ty).blocks.size := hAt
  exact {
    framed := (h.framed.newRegister hTy).add hAt' hAlloca
    wired := (hWidens.wired h.wired).add hAt' hAlloca hOpen hFits hPhi
      fun target hTarget => by rw [hTargets] at hTarget; cases hTarget
    single := h.single.emit h.parameters_le hAt ty hAlloca hDestination
    dominated := (hWidens.dominated h.dominated).add hAt' hAlloca hReads hPhis
      fun target hTarget => by rw [hTargets] at hTarget; cases hTarget }

end Add

end Sound

end Function
end Slate
