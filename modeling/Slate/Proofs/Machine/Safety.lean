import Slate.Proofs.Machine.Frame
import Slate.Proofs.Verified

/-! # Safety of frames

A frame of a lowered function is valid if what it still has to execute reads only registers that are written
by then. Every instruction of a valid frame can be executed, and what it asks for keeps the frame valid, now
or when a call comes back.
-/

namespace Slate
set_option autoImplicit false

namespace Instruction

theorem ReadsOnly.mono {written written' : RegisterId → Prop} {code : List Instruction}
    (h : ReadsOnly written code) (hMono : ∀ id, written id → written' id) : ReadsOnly written' code := by
  induction code generalizing written written' with
  | nil => trivial
  | cons first rest ih =>
    refine ⟨fun hPhi id hId => hMono id (h.1 hPhi id hId), ih h.2 ?_⟩
    intro id hId
    exact hId.imp_left (hMono id)

theorem ReadsOnly.append_left {written : RegisterId → Prop} {front code : List Instruction}
    (h : ReadsOnly written code) (hFront : ∀ instruction ∈ front, instruction.reads = []) :
    ReadsOnly written (front ++ code) := by
  induction front generalizing written with
  | nil => exact h
  | cons first rest ih =>
    refine ⟨fun _ id hId => ?_, ih (h.mono fun _ => .inl) fun other hOther => ?_⟩
    · rw [hFront first List.mem_cons_self] at hId
      cases hId
    · exact hFront other (List.mem_cons_of_mem _ hOther)

theorem Closed.eq_nil {first : Instruction} {rest : List Instruction} (h : Closed (first :: rest))
    (hFirst : first.isTerminator = true) : rest = [] := by
  obtain ⟨front, last, hCode, -, hFront⟩ := h
  cases front with
  | nil => exact (List.cons.inj hCode).2
  | cons head front =>
    have hHead := hFront head List.mem_cons_self
    rw [← (List.cons.inj hCode).1, hFirst] at hHead
    cases hHead

theorem Closed.tail {first : Instruction} {rest : List Instruction} (h : Closed (first :: rest))
    (hFirst : first.isTerminator = false) : Closed rest := by
  obtain ⟨front, last, hCode, hLast, hFront⟩ := h
  cases front with
  | nil =>
    rw [(List.cons.inj hCode).1, hLast] at hFirst
    cases hFirst
  | cons head front =>
    exact ⟨front, last, (List.cons.inj hCode).2, hLast,
      fun other hOther => hFront other (List.mem_cons_of_mem _ hOther)⟩

end Instruction

theorem IdMap.exists_get? {kind : IdKind} {α : Type} {map : IdMap kind α} {id : Id kind}
    (h : id ∈ map.keys) : ∃ value, map.get? id = some value := by
  cases hValue : map.get? id with
  | some value => exact ⟨value, rfl⟩
  | none =>
    obtain ⟨entry, hEntry, rfl⟩ := List.mem_map.mp h
    have hNone := List.lookup_eq_none_iff.mp hValue entry hEntry
    simp at hNone

namespace Function.Staged

variable {context : Context} {plan : Plan} {f : Function} (h : f.Staged context plan) {id : BlockId}
  {block : Block} (hBlock : f.blocks.get? id = some block) {written : RegisterId → Prop}
  (hEntering : ∀ register, plan.entering id register → written register)
include h hBlock hEntering

theorem readsOnly_code : Instruction.ReadsOnly written block.code := by
  rw [← f.codeAt_of_get? hBlock, h.sound.framed.code]
  refine ((h.sound.dominated.reads id).mono hEntering).append_left ?_
  intro instruction hMem
  obtain ⟨-, slot, -, rfl⟩ := mem_prologueAt hMem
  rfl

theorem leaves_code (register : RegisterId) (hRegister : f.Leaving plan.entering id register) :
    written register ∨ register ∈ block.code.filterMap Instruction.destination? := by
  refine hRegister.imp (hEntering register) fun hDefines => ?_
  rw [← f.codeAt_of_get? hBlock, h.sound.framed.code, List.filterMap_append]
  exact List.mem_append_right _ hDefines

end Function.Staged

namespace Frame

structure Valid (context : Context) (plan : Plan) (frame : Frame) : Prop where
  staged : frame.function.Staged context plan
  frontier : plan.frontier = ∅
  registers : frame.registers.size = frame.function.registers.size
  slots : frame.slots.size = frame.function.slots.size
  suffix : frame.rest <:+ frame.function.codeAt frame.block
  closed : Instruction.Closed frame.rest
  reads : Instruction.ReadsOnly frame.Written frame.rest
  leaves : ∀ register, frame.function.Leaving plan.entering frame.block register →
    frame.Written register ∨ register ∈ frame.rest.filterMap Instruction.destination?
  arrived : ∀ source, frame.previous = some source →
    frame.block ∈ frame.function.successorsAt source ∧
      ∀ register, frame.function.Leaving plan.entering source register → frame.Written register
  first : frame.previous = none → frame.block = ⟨0⟩

/-- The second frame is the first one past an instruction that is no terminator. -/
structure Passes (frame : Frame) (instruction : Instruction) (rest : List Instruction) (next : Frame) :
    Prop where
  function : next.function = frame.function
  destination : next.destination = frame.destination
  block : next.block = frame.block
  previous : next.previous = frame.previous
  rest_eq : next.rest = rest
  registers : next.registers.size = frame.registers.size
  slots : next.slots.size = frame.slots.size
  written : ∀ register, frame.Written register ∨ instruction.destination? = some register →
    next.Written register

section Passing

variable {frame : Frame} {instruction : Instruction} {rest : List Instruction}

theorem passes_past (h : instruction.destination? = none) :
    frame.Passes instruction rest (frame.past rest) where
  function := rfl
  destination := rfl
  block := rfl
  previous := rfl
  rest_eq := rfl
  registers := rfl
  slots := rfl
  written register hRegister := by
    rw [h] at hRegister
    exact hRegister.resolve_right nofun

theorem passes_putSlot (h : instruction.destination? = none) (slot : SlotId) (word : Word) :
    frame.Passes instruction rest ((frame.past rest).putSlot slot word) where
  function := rfl
  destination := rfl
  block := rfl
  previous := rfl
  rest_eq := rfl
  registers := rfl
  slots := size_putSlot _ _ _
  written register hRegister := by
    rw [h] at hRegister
    exact hRegister.resolve_right nofun

theorem passes_put {id : RegisterId} (h : instruction.destination? = some id)
    (hId : id.index < frame.registers.size) (value : Value) :
    frame.Passes instruction rest ((frame.past rest).put id value) where
  function := rfl
  destination := rfl
  block := rfl
  previous := rfl
  rest_eq := rfl
  registers := size_put _ _ _
  slots := rfl
  written register hRegister := by
    rw [h] at hRegister
    exact (frame.past rest).written_put hId value hRegister

end Passing

namespace Valid

variable {context : Context} {plan : Plan} {frame : Frame} (h : frame.Valid context plan)
  {instruction : Instruction} {rest : List Instruction}
include h

theorem block_lt : frame.block.index < frame.function.blocks.size := by
  by_contra hLarge
  obtain ⟨front, last, hRest, -⟩ := h.closed
  have hSuffix := h.suffix
  rw [frame.function.codeAt_of_size_le (Nat.not_lt.mp hLarge), hRest] at hSuffix
  simp at hSuffix

theorem fits (hMem : instruction ∈ frame.rest) : instruction.Fits context.signature? frame.function
    (frame.function.predecessorsAt frame.block) := by
  obtain ⟨block, hBlock⟩ := Table.exists_of_lt h.block_lt
  rw [frame.function.predecessorsAt_of_get? hBlock]
  refine (h.staged.wellFormed h.frontier).fits _ block hBlock instruction ?_
  rw [← frame.function.codeAt_of_get? hBlock]
  exact h.suffix.subset hMem

theorem result_ne_void {operand : Operand} {ty : Ty}
    (hOperand : frame.function.operandType? operand = some ty) : ty ≠ .void := by
  cases operand with
  | const value =>
    cases hOperand
    cases value <;> exact nofun
  | register id => exact h.staged.sound.framed.registers id ty hOperand

theorem mem_bodyAt (hMem : instruction ∈ frame.rest) (hAlloca : instruction.isAlloca = false) :
    instruction ∈ frame.function.bodyAt frame.block := by
  have hCode := h.suffix.subset hMem
  rw [h.staged.sound.framed.code] at hCode
  refine (List.mem_append.mp hCode).resolve_left fun hPrologue => ?_
  obtain ⟨-, slot, -, rfl⟩ := Function.mem_prologueAt hPrologue
  cases hAlloca

variable (hRest : frame.rest = instruction :: rest)
include hRest

omit h in
theorem mem_rest : instruction ∈ frame.rest := by
  rw [hRest]
  exact List.mem_cons_self

theorem passes (hTerminator : instruction.isTerminator = false) {next : Frame}
    (hNext : frame.Passes instruction rest next) : next.Valid context plan where
  staged := by
    rw [hNext.function]
    exact h.staged
  frontier := h.frontier
  registers := by
    rw [hNext.registers, hNext.function]
    exact h.registers
  slots := by
    rw [hNext.slots, hNext.function]
    exact h.slots
  suffix := by
    rw [hNext.rest_eq, hNext.function, hNext.block]
    refine List.IsSuffix.trans ?_ h.suffix
    rw [hRest]
    exact List.suffix_cons _ _
  closed := by
    have hClosed := h.closed
    rw [hRest] at hClosed
    rw [hNext.rest_eq]
    exact hClosed.tail hTerminator
  reads := by
    have hReads := h.reads
    rw [hRest] at hReads
    rw [hNext.rest_eq]
    exact hReads.2.mono hNext.written
  leaves register hRegister := by
    rw [hNext.function, hNext.block] at hRegister
    rw [hNext.rest_eq]
    rcases h.leaves register hRegister with hWritten | hLater
    · exact .inl (hNext.written register (.inl hWritten))
    · rw [hRest] at hLater
      obtain ⟨other, hOther, hDestination⟩ := List.mem_filterMap.mp hLater
      rcases List.mem_cons.mp hOther with rfl | hOther
      · exact .inl (hNext.written register (.inr hDestination))
      · exact .inr (List.mem_filterMap.mpr ⟨other, hOther, hDestination⟩)
  arrived source hSource := by
    rw [hNext.previous] at hSource
    rw [hNext.function, hNext.block]
    refine ⟨(h.arrived source hSource).1, fun register hRegister => ?_⟩
    exact hNext.written register (.inl ((h.arrived source hSource).2 register hRegister))
  first hNone := by
    rw [hNext.previous] at hNone
    rw [hNext.block]
    exact h.first hNone

theorem startOf {target : BlockId} (hTarget : target ∈ instruction.targets) {block : Block}
    (hBlock : frame.function.blocks.get? target = some block) :
    ((frame.past rest).startOf target block.code).Valid context plan := by
  have hTerminator := Instruction.isTerminator_of_mem_targets hTarget
  have hClosed := h.closed
  rw [hRest] at hClosed
  have hPlain : instruction.isAlloca = false ∧ instruction.destination? = none := by
    cases instruction <;> simp_all [Instruction.targets, Instruction.isAlloca, Instruction.destination?]
  have hEdge : target ∈ frame.function.successorsAt frame.block :=
    List.mem_flatMap.mpr ⟨instruction, h.mem_bodyAt (mem_rest hRest) hPlain.1, hTarget⟩
  have hLeft : ∀ register, frame.function.Leaving plan.entering frame.block register →
      frame.Written register := by
    intro register hRegister
    refine (h.leaves register hRegister).resolve_right fun hLater => ?_
    rw [hRest, hClosed.eq_nil hTerminator, List.filterMap_cons_none hPlain.2] at hLater
    cases hLater
  have hEntering : ∀ register, plan.entering target register → frame.Written register :=
    fun register hRegister => hLeft register (h.staged.sound.dominated.edges _ _ hEdge register hRegister)
  exact {
    staged := h.staged
    frontier := h.frontier
    registers := h.registers
    slots := h.slots
    suffix := by
      rw [← frame.function.codeAt_of_get? hBlock]
      exact List.suffix_refl _
    closed := by
      have hCode := h.staged.closed_code h.frontier (Table.lt_of_get? hBlock)
      rw [frame.function.codeAt_of_get? hBlock] at hCode
      exact hCode
    reads := h.staged.readsOnly_code hBlock hEntering
    leaves := h.staged.leaves_code hBlock hEntering
    arrived := by
      rintro source hSource
      cases hSource
      exact ⟨hEdge, hLeft⟩
    first := by
      intro hNone
      cases hNone }

theorem read_ok (hPhi : instruction.isPhi = false) {operand : Operand}
    (hOperand : operand ∈ instruction.operands) :
    ∃ value, (frame.past rest).read operand = .ok value := by
  cases operand with
  | const value => exact ⟨value, rfl⟩
  | register id =>
    have hReads := h.reads
    rw [hRest] at hReads
    obtain ⟨value, hValue⟩ := hReads.1 hPhi id (List.mem_filterMap.mpr ⟨_, hOperand, rfl⟩)
    exact ⟨value, (frame.past rest).read_of_holds hValue⟩

theorem readWord_ok (hPhi : instruction.isPhi = false) {operand : Operand}
    (hOperand : operand ∈ instruction.operands) :
    ∃ word, (frame.past rest).readWord operand = .ok word := by
  obtain ⟨value, hValue⟩ := h.read_ok hRest hPhi hOperand
  refine ⟨value.toWord, ?_⟩
  rw [readWord, hValue]
  rfl

/-- A phi has an operand for the block that control came from. -/
theorem phi_ok {destination : RegisterId} {sources : IdMap .block Operand}
    (hPhi : instruction = .phi destination sources) :
    ∃ operand value, (frame.past rest).previous.bind sources.get? = some operand ∧
      (frame.past rest).read operand = .ok value := by
  subst hPhi
  have hMem := mem_rest hRest
  have hBody := h.mem_bodyAt hMem rfl
  cases hPrevious : frame.previous with
  | none =>
    rw [h.first hPrevious] at hBody
    have hPhi := h.staged.sound.wired.entryPhi _ hBody
    cases hPhi
  | some source =>
    obtain ⟨hEdge, hLeaving⟩ := h.arrived source hPrevious
    have hKey : source ∈ sources.keys := by
      have hKeys : sources.keys = _ := (h.fits hMem).placed
      rw [hKeys]
      exact (h.staged.sound.wired.predecessors _ _).mpr hEdge
    obtain ⟨operand, hOperand⟩ := IdMap.exists_get? hKey
    have hGet : (frame.past rest).previous.bind sources.get? = some operand := by
      change frame.previous.bind sources.get? = some operand
      rw [hPrevious]
      exact hOperand
    cases operand with
    | const value => exact ⟨_, value, hGet, rfl⟩
    | register id =>
      obtain ⟨value, hValue⟩ := hLeaving id
        (h.staged.sound.dominated.phis _ _ _ hBody source id (IdMap.mem_of_get? hOperand))
      exact ⟨_, value, hGet, (frame.past rest).read_of_holds hValue⟩

end Valid

def Runs (module : Module) (width : Nat) (frame : Frame) : Prop :=
  ∃ plan, frame.Valid ⟨module.signature?, width⟩ plan

/-- A frame can go on when a call comes back, with a result if it wants one. -/
def Awaits (module : Module) (width : Nat) (frame : Frame) (destination : Option RegisterId) : Prop :=
  ∀ value : Option Value, (destination.isSome = true → value.isSome = true) →
    ∃ next, frame.receive destination value = .ok next ∧ next.Runs module width ∧
      next.function = frame.function ∧ next.destination = frame.destination

end Frame

theorem Function.Staged.written_parameter {context : Context} {plan : Plan} {f : Function}
    (h : f.Staged context plan) {arguments : List Word} (hLength : arguments.length = f.parameters.length)
    (code : List Instruction) (destination : Option RegisterId) {register : RegisterId}
    (hRegister : register ∈ f.parameters) :
    ((Frame.blank f code destination).withArguments (f.parameters.zip arguments)).Written register := by
  have hNodup : f.parameters.Nodup := by
    rw [h.sound.framed.parameters]
    refine List.Nodup.map ?_ List.nodup_range
    intro a b hEq
    exact congrArg Id.index hEq
  obtain ⟨i, hi, hGet⟩ := List.mem_iff_getElem.mp hRegister
  have hWord : i < arguments.length := hLength ▸ hi
  refine ⟨.int arguments[i], Frame.holds_parameter hNodup ?_ hLength code destination ?_⟩
  · exact fun id hId => Table.lt_of_get? (h.sound.framed.parameterTypes id hId)
  · rw [← hGet]
    exact List.mem_iff_getElem.mpr ⟨i, by simp [hi, hWord], by simp⟩

theorem Function.Staged.valid_start {context : Context} {plan : Plan} {f : Function}
    (h : f.Staged context plan) (hFrontier : plan.frontier = ∅) {block : Block}
    (hBlock : f.blocks.get? ⟨0⟩ = some block) {arguments : List Word}
    (hLength : arguments.length = f.parameters.length) (destination : Option RegisterId) :
    ((Frame.blank f block.code destination).withArguments (f.parameters.zip arguments)).Valid
      context plan := by
  have hEntering : ∀ register, plan.entering ⟨0⟩ register →
      ((Frame.blank f block.code destination).withArguments (f.parameters.zip arguments)).Written
        register := by
    intro register hRegister
    exact h.written_parameter hLength _ _ (h.sound.dominated.start register hRegister)
  refine {
    staged := by
      rw [Frame.function_withArguments]
      exact h
    frontier := hFrontier
    registers := ?_
    slots := ?_
    suffix := ?_
    closed := ?_
    reads := ?_
    leaves := ?_
    arrived := ?_
    first := ?_ }
  · rw [Frame.size_withArguments, Frame.size_blank, Frame.function_withArguments]
    rfl
  · simp [Frame.blank, Table.size]
  · rw [Frame.rest_withArguments, Frame.function_withArguments, Frame.block_withArguments]
    exact (f.codeAt_of_get? hBlock).symm ▸ List.suffix_refl _
  · rw [Frame.rest_withArguments]
    exact f.codeAt_of_get? hBlock ▸ h.closed_code hFrontier (Table.lt_of_get? hBlock)
  · rw [Frame.rest_withArguments]
    exact h.readsOnly_code hBlock hEntering
  · rw [Frame.rest_withArguments, Frame.function_withArguments, Frame.block_withArguments]
    exact h.leaves_code hBlock hEntering
  · intro source hSource
    rw [Frame.previous_withArguments] at hSource
    cases hSource
  · intro _
    exact Frame.block_withArguments

namespace Module.Lowered

variable {width : Nat} {module : Module} (h : module.Lowered width) {id : FunctionId} {f : Function}
  (hFound : module.get? id = some f)
include h hFound

theorem staged (hBody : f.isDeclaration = false) : 0 < f.blocks.size ∧
    ∃ plan, f.Staged ⟨module.signature?, width⟩ plan ∧ plan.frontier = ∅ := by
  refine (h.cases hFound).resolve_left fun hBare => ?_
  rw [hBare, Function.isDeclaration_bare] at hBody
  cases hBody

theorem variadic_eq_false (hBody : f.isDeclaration = false) : f.signature.variadic = false := by
  by_cases hHost : id = ⟨0⟩
  · rw [hHost, h.host] at hFound
    cases hFound
    cases hBody
  by_cases hEntry : id = ⟨1⟩
  · obtain ⟨entry, plan, hGet, -, -, hSignature, -⟩ := h.entry
    rw [hEntry, hGet] at hFound
    cases hFound
    rw [hSignature]
  · rw [(h.written id f hFound hHost hEntry).signature]
    rfl

theorem declaration_cases (hDeclaration : f.isDeclaration = true) :
    f = Lowering.hostFunction ∨ f.name ≠ "_puts" := by
  by_cases hHost : id = ⟨0⟩
  · rw [hHost, h.host] at hFound
    exact .inl (Option.some.inj hFound).symm
  by_cases hEntry : id = ⟨1⟩
  · obtain ⟨entry, plan, hGet, -, -, -, hSize, -⟩ := h.entry
    rw [hEntry, hGet] at hFound
    cases hFound
    exact absurd ((Table.isEmpty_iff _).mp hDeclaration) (Nat.ne_of_gt hSize)
  · refine .inr fun hName => ?_
    have hReserved := (h.written id f hFound hHost hEntry).name
    rw [hName] at hReserved
    revert hReserved
    decide

/-- A function entered with as many arguments as it has parameters starts in a valid frame. -/
theorem enter_ok (hBody : f.isDeclaration = false) {arguments : List Word}
    (hLength : arguments.length = f.parameters.length) (destination : Option RegisterId) :
    ∃ frame, Frame.enter f arguments destination = .ok frame ∧ frame.Runs module width ∧
      frame.function = f ∧ frame.destination = destination := by
  obtain ⟨hSize, plan, hStaged, hFrontier⟩ := h.staged hFound hBody
  have hFirst : (⟨0⟩ : BlockId).index < f.blocks.size := hSize
  obtain ⟨block, hBlock⟩ := Table.exists_of_lt hFirst
  refine ⟨_, Frame.enter_eq hBlock (h.parameters_lt hFound) arguments destination,
    ⟨plan, hStaged.valid_start hFrontier hBlock hLength destination⟩, ?_, ?_⟩
  · exact Frame.function_withArguments
  · exact Frame.destination_withArguments

end Module.Lowered

/-- The host is asked for `_puts` with a count, or for a function that the module only declares. -/
def Module.Answerable (module : Module) (width : Nat) (symbol : String) (arguments : List Word)
    (destination : Option RegisterId) : Prop :=
  (symbol = "_puts" ∧ destination = none ∧ ∃ values : List Word, values.length ≤ width ∧
    arguments = Int32.ofInt values.length :: values) ∨
  (symbol ≠ "_puts" ∧ ∃ id f, module.get? id = some f ∧ f.isDeclaration = true ∧ f.name = symbol)

/-- What an instruction may ask for in a frame. -/
def Action.Fine (module : Module) (width : Nat) (frame : Frame) : Action → Prop
  | .resume next =>
    next.Runs module width ∧ next.function = frame.function ∧ next.destination = frame.destination
  | .call next callee arguments destination =>
    next.Awaits module width destination ∧ next.function = frame.function ∧
      next.destination = frame.destination ∧ (∃ id, module.get? id = some callee) ∧
      callee.isDeclaration = false ∧ arguments.length = callee.parameters.length ∧
      (destination.isSome = true → callee.signature.result ≠ .void)
  | .host next symbol arguments destination =>
    next.Awaits module width destination ∧ next.function = frame.function ∧
      next.destination = frame.destination ∧ module.Answerable width symbol arguments destination
  | .ret value => value.isSome = true ↔ frame.function.signature.result ≠ .void

namespace Frame.Valid

variable {module : Module} {width : Nat} {plan : Plan} {frame : Frame}
  (h : frame.Valid ⟨module.signature?, width⟩ plan) {instruction : Instruction} {rest : List Instruction}
  (hRest : frame.rest = instruction :: rest)
include h hRest

theorem resume (hTerminator : instruction.isTerminator = false) {next : Frame}
    (hNext : frame.Passes instruction rest next) : (Action.resume next).Fine module width frame :=
  ⟨⟨plan, h.passes hRest hTerminator hNext⟩, hNext.function, hNext.destination⟩

theorem resume_put (hTerminator : instruction.isTerminator = false) {id : RegisterId}
    (hId : instruction.destination? = some id) (value : Value) :
    ∃ next, (frame.past rest).write id value = .ok next ∧
      (Action.resume next).Fine module width frame := by
  have hSize : id.index < frame.registers.size := by
    rw [h.registers]
    exact (h.fits (mem_rest hRest)).writes id hId
  exact ⟨_, (frame.past rest).write_eq hSize value,
    h.resume hRest hTerminator (passes_put hId hSize value)⟩

theorem resume_putSlot (hTerminator : instruction.isTerminator = false)
    (hDestination : instruction.destination? = none) {slot : SlotId}
    (hSlot : instruction.slot? = some slot) (word : Word) :
    ∃ next, (frame.past rest).writeSlot slot word = .ok next ∧
      (Action.resume next).Fine module width frame := by
  have hSize : slot.index < frame.slots.size := by
    rw [h.slots]
    exact (h.fits (mem_rest hRest)).slot slot hSlot
  exact ⟨_, (frame.past rest).writeSlot_eq hSize word,
    h.resume hRest hTerminator (passes_putSlot hDestination slot word)⟩

theorem resume_goto {target : BlockId} (hTarget : target ∈ instruction.targets) :
    ∃ next, (frame.past rest).goto target = .ok next ∧
      (Action.resume next).Fine module width frame := by
  obtain ⟨block, hBlock⟩ := Table.exists_of_lt ((h.fits (mem_rest hRest)).target_lt hTarget)
  exact ⟨_, (frame.past rest).goto_eq hBlock, ⟨plan, h.startOf hRest hTarget hBlock⟩, rfl, rfl⟩

theorem awaits {callee : FunctionId} {arguments : List Operand} {destination : Option RegisterId}
    (hCall : instruction = .call callee arguments destination) :
    (frame.past rest).Awaits module width destination := by
  subst hCall
  intro value hValue
  cases destination with
  | none =>
    refine ⟨frame.past rest, ?_, ⟨plan, h.passes hRest rfl (passes_past rfl)⟩, rfl, rfl⟩
    cases value <;> rfl
  | some id =>
    obtain ⟨result, rfl⟩ := Option.isSome_iff_exists.mp (hValue rfl)
    have hId : (Instruction.call callee arguments (some id)).destination? = some id := rfl
    obtain ⟨next, hWrite, hNext⟩ := h.resume_put hRest rfl hId result
    exact ⟨next, hWrite, hNext⟩

theorem words_ok (hPhi : instruction.isPhi = false) : ∃ words : List Word,
    List.Forall₂ (fun operand word => (frame.past rest).readWord operand = .ok word)
      instruction.operands words := by
  have hAll : ∀ operand ∈ instruction.operands, ∃ word, (frame.past rest).readWord operand = .ok word :=
    fun operand hOperand => h.readWord_ok hRest hPhi hOperand
  generalize instruction.operands = operands at hAll
  induction operands with
  | nil => exact ⟨[], .nil⟩
  | cons first others ih =>
    obtain ⟨word, hWord⟩ := hAll first List.mem_cons_self
    obtain ⟨words, hWords⟩ := ih fun operand hOperand => hAll operand (List.mem_cons_of_mem _ hOperand)
    exact ⟨word :: words, .cons hWord hWords⟩

end Frame.Valid

theorem Lowering.withCount_host (given : List Operand) :
    withCount hostFunction.signature.visibleArity given =
      word (Int32.ofInt given.length) :: given :=
  rfl

namespace Machine

variable {module : Module} {width : Nat} {plan : Plan} {frame : Frame}
  (hModule : module.Lowered width) (h : frame.Valid ⟨module.signature?, width⟩ plan)
  {rest : List Instruction}
include hModule h

theorem execute_call {callee : FunctionId} {arguments : List Operand} {destination : Option RegisterId}
    (hRest : frame.rest = .call callee arguments destination :: rest) :
    ∃ action, execute module (frame.past rest) (.call callee arguments destination) = .ok action ∧
      action.Fine module width frame := by
  have hMem := Frame.Valid.mem_rest hRest
  obtain ⟨signature, hSignature, hResult, hCount⟩ :=
    h.staged.calls _ _ (h.mem_bodyAt hMem rfl)
  obtain ⟨_, hSame, hAccepts⟩ := (h.fits hMem).placed
  cases hSignature.symm.trans hSame
  obtain ⟨f, hFound, hSigned⟩ := Option.map_eq_some_iff.mp hSignature
  have hAwaits := h.awaits hRest rfl
  obtain ⟨words, hWords⟩ := h.words_ok hRest rfl
  have hMapM := Frame.mapM_readWord hWords
  rw [Instruction.operands] at hMapM
  simp only [execute]
  rw [hFound, hMapM]
  cases hDeclaration : f.isDeclaration with
  | true =>
    refine ⟨.host (frame.past rest) f.name words destination, ?_, hAwaits, rfl, rfl, ?_⟩
    · change (if f.isDeclaration = true then _ else _) = _
      rw [if_pos hDeclaration]
      rfl
    · rcases hModule.declaration_cases hFound hDeclaration with rfl | hName
      · cases hSigned
        obtain ⟨given, hGiven, hArguments⟩ := hCount rfl
        rw [Instruction.operands, hArguments, Lowering.withCount_host] at hWords
        cases hWords with
        | cons hFirst hOthers =>
          cases hFirst
          have hLength := hOthers.length_eq
          refine .inl ⟨rfl, ?_, _, hLength ▸ hGiven, ?_⟩
          · exact Option.not_isSome_iff_eq_none.mp fun hSome => hResult.mp hSome rfl
          · rw [← hLength]
            rfl
      · exact .inr ⟨hName, callee, f, hFound, hDeclaration, rfl⟩
  | false =>
    refine ⟨.call (frame.past rest) f words destination, ?_, hAwaits, rfl, rfl, ⟨callee, hFound⟩,
      hDeclaration, ?_, ?_⟩
    · change (if f.isDeclaration = true then _ else _) = _
      rw [if_neg (by simp [hDeclaration])]
      rfl
    · obtain ⟨_, _, hStaged, _⟩ := hModule.staged hFound hDeclaration
      rw [hStaged.sound.framed.arity, hSigned, ← hWords.length_eq]
      rw [Signature.accepts, ← hSigned, hModule.variadic_eq_false hFound hDeclaration, hSigned] at hAccepts
      have hLength : arguments.length = signature.parameters.length := by simpa using hAccepts
      exact hLength
    · rw [hSigned]
      exact hResult.mp

theorem execute_fine {instruction : Instruction} (hRest : frame.rest = instruction :: rest) :
    ∃ action, execute module (frame.past rest) instruction = .ok action ∧
      action.Fine module width frame := by
  have hFits := h.fits (Frame.Valid.mem_rest hRest)
  cases instruction with
  | alloca slot =>
    obtain ⟨next, hWrite, hNext⟩ := h.resume_putSlot hRest rfl rfl rfl 0
    refine ⟨_, ?_, hNext⟩
    simp only [execute]
    rw [hWrite]
    rfl
  | load destination slot =>
    have hSlot : slot.index < frame.slots.size := by
      rw [h.slots]
      exact hFits.slot slot rfl
    obtain ⟨word, hWord⟩ := Table.exists_of_lt hSlot
    obtain ⟨next, hWrite, hNext⟩ := h.resume_put hRest rfl rfl (.int word)
    refine ⟨_, ?_, hNext⟩
    have hGet : (frame.past rest).slots.get? slot = some word := hWord
    simp only [execute]
    rw [hGet]
    change (frame.past rest).write destination (.int word) >>= _ = _
    rw [hWrite]
    rfl
  | store slot value =>
    obtain ⟨word, hWord⟩ := h.readWord_ok hRest rfl List.mem_cons_self
    obtain ⟨next, hWrite, hNext⟩ := h.resume_putSlot hRest rfl rfl rfl word
    refine ⟨_, ?_, hNext⟩
    simp only [execute]
    rw [hWord]
    change (frame.past rest).writeSlot slot word >>= _ = _
    rw [hWrite]
    rfl
  | arith op destination lhs rhs =>
    obtain ⟨left, hLeft⟩ := h.readWord_ok hRest rfl List.mem_cons_self
    obtain ⟨right, hRight⟩ := h.readWord_ok hRest rfl (List.mem_cons_of_mem _ List.mem_cons_self)
    obtain ⟨next, hWrite, hNext⟩ := h.resume_put hRest rfl rfl (.int (op.apply left right))
    refine ⟨_, ?_, hNext⟩
    simp only [execute]
    rw [hLeft, hRight]
    change (frame.past rest).write destination _ >>= _ = _
    rw [hWrite]
    rfl
  | compare predicate destination lhs rhs =>
    obtain ⟨left, hLeft⟩ := h.readWord_ok hRest rfl List.mem_cons_self
    obtain ⟨right, hRight⟩ := h.readWord_ok hRest rfl (List.mem_cons_of_mem _ List.mem_cons_self)
    obtain ⟨next, hWrite, hNext⟩ := h.resume_put hRest rfl rfl (.bool (predicate.apply left right))
    refine ⟨_, ?_, hNext⟩
    simp only [execute]
    rw [hLeft, hRight]
    change (frame.past rest).write destination _ >>= _ = _
    rw [hWrite]
    rfl
  | extend destination operand ty =>
    obtain ⟨word, hWord⟩ := h.readWord_ok hRest rfl List.mem_cons_self
    obtain ⟨next, hWrite, hNext⟩ := h.resume_put hRest rfl rfl (.int word)
    refine ⟨_, ?_, hNext⟩
    simp only [execute]
    rw [hWord]
    change (frame.past rest).write destination _ >>= _ = _
    rw [hWrite]
    rfl
  | call callee arguments destination => exact execute_call hModule h hRest
  | phi destination sources =>
    obtain ⟨operand, value, hOperand, hValue⟩ := h.phi_ok hRest rfl
    obtain ⟨next, hWrite, hNext⟩ := h.resume_put hRest rfl rfl value
    refine ⟨_, ?_, hNext⟩
    simp only [execute]
    rw [hOperand]
    change (frame.past rest).read operand >>= _ = _
    rw [hValue]
    change (frame.past rest).write destination value >>= _ = _
    rw [hWrite]
    rfl
  | jump target =>
    obtain ⟨next, hGoto, hNext⟩ := h.resume_goto hRest List.mem_cons_self
    refine ⟨_, ?_, hNext⟩
    simp only [execute]
    rw [hGoto]
    rfl
  | branch condition positive negative =>
    obtain ⟨value, hValue⟩ := h.read_ok hRest rfl List.mem_cons_self
    have hTarget : (if value.toBool = true then positive else negative) ∈
        (Instruction.branch condition positive negative).targets := by
      cases value.toBool <;> simp [Instruction.targets]
    obtain ⟨next, hGoto, hNext⟩ := h.resume_goto hRest hTarget
    refine ⟨_, ?_, hNext⟩
    simp only [execute]
    rw [hValue]
    change (frame.past rest).goto _ >>= _ = _
    rw [hGoto]
    rfl
  | ret value =>
    cases value with
    | none =>
      refine ⟨.ret none, rfl, ?_⟩
      have hResult : frame.function.signature.result = .void := hFits.placed
      simp [Action.Fine, hResult]
    | some operand =>
      obtain ⟨value, hValue⟩ := h.read_ok hRest rfl List.mem_cons_self
      refine ⟨.ret (some value), ?_, ?_⟩
      · simp only [execute]
        rw [hValue]
        rfl
      · have hResult : frame.function.operandType? operand = some frame.function.signature.result :=
          hFits.typed
        simp [Action.Fine, h.result_ne_void hResult]

end Machine

end Slate
