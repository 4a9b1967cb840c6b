import Slate.Proofs.Machine.Run
import Slate.Proofs.Machine.Safety

/-! # Verified modules run without faults

Whatever module passes verification, its frames stay inside blocks that end in a terminator, with registers and
slots of the right number, and came from a recorded predecessor. So no instruction faults, no callee is
missing, and a phi finds its source unless control has not left the first block yet.
-/

namespace Slate
set_option autoImplicit false

/-- How a computation ends: with a value that fits, or with one of the given errors, but not with a fault. -/
def Step.Ends {α : Type} (fails : ExecutionError → Prop) (post : α → Prop) : Step α → Prop
  | .ok value => post value
  | .error (.error error) => fails error
  | .error .fault => False

namespace Step.Ends

variable {α β : Type} {fails : ExecutionError → Prop} {post : α → Prop} {post' : β → Prop}

theorem bind {action : Step α} {next : α → Step β} (h : Ends fails post action)
    (hNext : ∀ value, post value → Ends fails post' (next value)) : Ends fails post' (action >>= next) := by
  match action, h with
  | .ok value, h => exact hNext value h
  | .error (.error _), h => exact h

end Step.Ends

namespace Frame

/-- The errors that an instruction of a verified function can end with. -/
def MayStop (frame : Frame) (error : ExecutionError) : Prop :=
  (∃ id, error = .undefinedRegister frame.function.name id) ∨
    error = .missingPhiSource frame.function.name ∧ frame.block = ⟨0⟩ ∧ frame.previous = none

theorem MayStop.ne_unknownFunction {frame : Frame} {error : ExecutionError} (h : frame.MayStop error)
    (name : String) : error ≠ .unknownFunction name := by
  rcases h with ⟨id, rfl⟩ | ⟨rfl, -⟩ <;> exact ExecutionError.noConfusion

theorem MayStop.of_missingPhiSource {frame : Frame} {error : ExecutionError} (h : frame.MayStop error)
    {name : String} (hError : error = .missingPhiSource name) :
    frame.block = ⟨0⟩ ∧ frame.previous = none := by
  rcases h with ⟨id, rfl⟩ | ⟨-, hFirst⟩
  · cases hError
  · exact hFirst

/-- A frame of a verified function. -/
structure Steady (module : Module) (frame : Frame) : Prop where
  wellFormed : frame.function.WellFormed module.signature?
  registers : frame.registers.size = frame.function.registers.size
  slots : frame.slots.size = frame.function.slots.size
  inside : ∃ block, frame.function.blocks.get? frame.block = some block ∧ frame.rest <:+ block.code ∧
    ∀ source, frame.previous = some source → source ∈ block.predecessors.ids
  closed : Instruction.Closed frame.rest
  first : frame.previous = none → frame.block = ⟨0⟩

section Operations

variable {frame : Frame} {fails : ExecutionError → Prop}
  (hFails : ∀ id, fails (.undefinedRegister frame.function.name id))

include hFails in
theorem read_ends {operand : Operand}
    (h : ∀ id, operand.register? = some id → id.index < frame.registers.size) :
    Step.Ends fails (fun _ => True) (frame.read operand) := by
  cases operand with
  | const value => exact trivial
  | register id =>
    obtain ⟨row, hRow⟩ := Table.exists_of_lt (h id rfl)
    rw [read, hRow]
    cases row with
    | none => exact hFails id
    | some value => exact trivial

include hFails in
theorem readWord_ends {operand : Operand}
    (h : ∀ id, operand.register? = some id → id.index < frame.registers.size) :
    Step.Ends fails (fun _ => True) (frame.readWord operand) :=
  (read_ends hFails h).bind fun _ _ => trivial

include hFails in
theorem readWords_ends {operands : List Operand}
    (h : ∀ operand ∈ operands, ∀ id, operand.register? = some id → id.index < frame.registers.size) :
    Step.Ends fails (fun _ => True) (operands.mapM frame.readWord) := by
  induction operands with
  | nil => exact trivial
  | cons first rest ih =>
    rw [List.mapM_cons]
    refine (readWord_ends hFails (h first List.mem_cons_self)).bind fun _ _ => ?_
    exact (ih fun operand hOperand => h operand (List.mem_cons_of_mem _ hOperand)).bind fun _ _ => trivial

theorem write_ends {id : RegisterId} (h : id.index < frame.registers.size) (value : Value) :
    Step.Ends fails (· = frame.put id value) (frame.write id value) := by
  rw [write_eq frame h]
  exact rfl

theorem writeSlot_ends {id : SlotId} (h : id.index < frame.slots.size) (word : Word) :
    Step.Ends fails (· = frame.putSlot id word) (frame.writeSlot id word) := by
  rw [writeSlot_eq frame h]
  exact rfl

end Operations

namespace Steady

variable {module : Module} {frame : Frame} (h : frame.Steady module) {instruction : Instruction}
  {rest : List Instruction}
include h

theorem past (hRest : frame.rest = instruction :: rest) (hTerminator : instruction.isTerminator = false) :
    (frame.past rest).Steady module := by
  obtain ⟨block, hBlock, hSuffix, hArrived⟩ := h.inside
  have hClosed := h.closed
  rw [hRest] at hSuffix hClosed
  exact ⟨h.wellFormed, h.registers, h.slots,
    ⟨block, hBlock, (List.suffix_cons _ _).trans hSuffix, hArrived⟩, hClosed.tail hTerminator, h.first⟩

/-- A waiting frame that gets a result. -/
theorem put (id : RegisterId) (value : Value) : (frame.put id value).Steady module where
  wellFormed := h.wellFormed
  registers := (size_put _ _ _).trans h.registers
  slots := h.slots
  inside := h.inside
  closed := h.closed
  first := h.first

theorem putSlot (slot : SlotId) (word : Word) : (frame.putSlot slot word).Steady module where
  wellFormed := h.wellFormed
  registers := h.registers
  slots := (size_putSlot _ _ _).trans h.slots
  inside := h.inside
  closed := h.closed
  first := h.first

theorem enterBlock (hRest : frame.rest = instruction :: rest) {target : BlockId}
    (hTarget : target ∈ instruction.targets) {block : Block}
    (hBlock : frame.function.blocks.get? target = some block) :
    ((frame.past rest).startOf target block.code).Steady module := by
  obtain ⟨here, hHere, ⟨front, hCode⟩, -⟩ := h.inside
  have hTerminator := Instruction.isTerminator_of_mem_targets hTarget
  have hClosed := h.closed
  rw [hRest] at hClosed hCode
  rw [hClosed.eq_nil hTerminator] at hCode
  have hSuccessors : here.successors = instruction.targets := by
    rw [Block.successors, Block.terminator?, ← hCode, List.getLast?_concat, Option.filter_some,
      if_pos hTerminator]
    rfl
  refine ⟨h.wellFormed, h.registers, h.slots, ⟨block, hBlock, List.suffix_refl _, ?_⟩,
    h.wellFormed.closed target block hBlock, ?_⟩
  · intro source hSource
    cases hSource
    rw [h.wellFormed.predecessors target block hBlock]
    exact ⟨here, hHere, hSuccessors ▸ hTarget⟩
  · intro hNone
    cases hNone

/-- Arguments that are written, one after the other. -/
theorem foldlM_write {pairs : List (RegisterId × Word)} {next : Frame}
    (hWrites : pairs.foldlM (fun frame (id, argument) => frame.write id (.int argument)) frame =
      (.ok next : Step Frame)) : next.Steady module ∧ next.destination = frame.destination := by
  induction pairs generalizing frame with
  | nil =>
    cases hWrites
    exact ⟨h, rfl⟩
  | cons first rest ih =>
    obtain ⟨id, argument⟩ := first
    rw [List.foldlM_cons] at hWrites
    dsimp only at hWrites
    by_cases hId : id.index < frame.registers.size
    · rw [frame.write_eq hId] at hWrites
      obtain ⟨hSteady, hDestination⟩ := ih (h.put id (.int argument)) hWrites
      exact ⟨hSteady, hDestination⟩
    · have hFault : frame.write id (.int argument) = .error .fault :=
        if_neg (mt (Table.contains_iff _ _).mp hId)
      rw [hFault] at hWrites
      cases hWrites

theorem exists_next : ∃ instruction rest, frame.rest = instruction :: rest := by
  obtain ⟨front, last, hEq, -⟩ := h.closed
  exact List.exists_cons_of_ne_nil (by simp [hEq])

theorem fits (hMem : instruction ∈ frame.rest) : ∃ block,
    frame.function.blocks.get? frame.block = some block ∧
    (∀ source, frame.previous = some source → source ∈ block.predecessors.ids) ∧
    instruction.Fits module.signature? frame.function block.predecessors := by
  obtain ⟨block, hBlock, hSuffix, hArrived⟩ := h.inside
  exact ⟨block, hBlock, hArrived, h.wellFormed.fits _ block hBlock _ (hSuffix.subset hMem)⟩

end Steady

end Frame

/-- What an instruction of a verified function may ask for. -/
def Action.Steady (module : Module) (frame : Frame) : Action → Prop
  | .resume next => next.Steady module ∧ next.destination = frame.destination
  | .call next callee _ destination => next.Steady module ∧ next.destination = frame.destination ∧
    (∃ id, module.get? id = some callee) ∧ callee.isDeclaration = false ∧
    ∀ id, destination = some id → id.index < next.registers.size
  | .host next _ _ destination => next.Steady module ∧ next.destination = frame.destination ∧
    ∀ id, destination = some id → id.index < next.registers.size
  | .ret _ => True

open Machine

namespace Frame.Steady

variable {module : Module} {frame : Frame} (h : frame.Steady module) {instruction : Instruction}
  {rest : List Instruction} (hRest : frame.rest = instruction :: rest)
include h hRest

theorem mem_registers {operand : Operand} (hOperand : operand ∈ instruction.operands) :
    ∀ id, operand.register? = some id → id.index < (frame.past rest).registers.size := by
  obtain ⟨block, -, -, hFits⟩ := h.fits (hRest ▸ List.mem_cons_self)
  intro id hId
  change id.index < frame.registers.size
  rw [h.registers]
  exact hFits.reads id (List.mem_filterMap.mpr ⟨operand, hOperand, hId⟩)

theorem resume_write {id : RegisterId} (hDestination : instruction.destination? = some id)
    (hTerminator : instruction.isTerminator = false) (value : Value) :
    Step.Ends frame.MayStop (Action.Steady module frame)
      ((frame.past rest).write id value >>= fun next => pure (.resume next)) := by
  obtain ⟨block, -, -, hFits⟩ := h.fits (hRest ▸ List.mem_cons_self)
  have hId : id.index < (frame.past rest).registers.size := by
    change id.index < frame.registers.size
    rw [h.registers]
    exact hFits.writes id hDestination
  refine (Frame.write_ends hId value).bind ?_
  rintro _ rfl
  exact ⟨(h.past hRest hTerminator).put id value, rfl⟩

theorem resume_writeSlot {slot : SlotId} (hSlot : instruction.slot? = some slot)
    (hTerminator : instruction.isTerminator = false) (word : Word) :
    Step.Ends frame.MayStop (Action.Steady module frame)
      ((frame.past rest).writeSlot slot word >>= fun next => pure (.resume next)) := by
  obtain ⟨block, -, -, hFits⟩ := h.fits (hRest ▸ List.mem_cons_self)
  have hLess : slot.index < (frame.past rest).slots.size := by
    change slot.index < frame.slots.size
    rw [h.slots]
    exact hFits.slot slot hSlot
  refine (Frame.writeSlot_ends hLess word).bind ?_
  rintro _ rfl
  exact ⟨(h.past hRest hTerminator).putSlot slot word, rfl⟩

theorem resume_goto {target : BlockId} (hTarget : target ∈ instruction.targets)
    (hKnown : target.index < frame.function.blocks.size) :
    Step.Ends frame.MayStop (Action.Steady module frame)
      ((frame.past rest).goto target >>= fun next => pure (.resume next)) := by
  obtain ⟨block, hBlock⟩ := Table.exists_of_lt hKnown
  rw [(frame.past rest).goto_eq hBlock]
  exact ⟨h.enterBlock hRest hTarget hBlock, rfl⟩

omit h hRest in
theorem undefined (rest : List Instruction) (id : RegisterId) :
    frame.MayStop (.undefinedRegister (frame.past rest).function.name id) := .inl ⟨id, rfl⟩

/-- Where control came from a recorded predecessor, a phi has a source. -/
theorem execute_phi {destination : RegisterId} {sources : IdMap .block Operand}
    (hPhi : instruction = .phi destination sources) :
    Step.Ends frame.MayStop (Action.Steady module frame)
      (execute module (frame.past rest) instruction) := by
  subst hPhi
  obtain ⟨block, -, hArrived, hFits⟩ := h.fits (hRest ▸ List.mem_cons_self)
  simp only [execute]
  cases hSource : (frame.past rest).previous.bind sources.get? with
  | none =>
    refine .inr ⟨rfl, ?_⟩
    cases hPrevious : frame.previous with
    | none => exact ⟨h.first hPrevious, rfl⟩
    | some source =>
      have hKeys : sources.keys = block.predecessors.ids := hFits.placed
      obtain ⟨operand, hOperand⟩ := IdMap.exists_get? (hKeys ▸ hArrived source hPrevious)
      change frame.previous.bind sources.get? = none at hSource
      rw [hPrevious, Option.bind_some, hOperand] at hSource
      cases hSource
  | some operand =>
    obtain ⟨source, -, hGet⟩ := Option.bind_eq_some_iff.mp hSource
    have hMem : operand ∈ (Instruction.phi destination sources).operands :=
      List.mem_map.mpr ⟨(source, operand), IdMap.mem_of_get? hGet, rfl⟩
    refine (Frame.read_ends (undefined rest) (h.mem_registers hRest hMem)).bind fun value _ => ?_
    exact h.resume_write hRest rfl rfl value

theorem execute_call {callee : FunctionId} {arguments : List Operand} {destination : Option RegisterId}
    (hCall : instruction = .call callee arguments destination) :
    Step.Ends frame.MayStop (Action.Steady module frame)
      (execute module (frame.past rest) instruction) := by
  subst hCall
  obtain ⟨block, -, -, hFits⟩ := h.fits (hRest ▸ List.mem_cons_self)
  obtain ⟨signature, hSignature, -⟩ := hFits.placed
  obtain ⟨f, hFound, -⟩ := Option.map_eq_some_iff.mp hSignature
  have hNext : (frame.past rest).Steady module := h.past hRest rfl
  have hDestination : ∀ id, destination = some id → id.index < frame.registers.size := by
    intro id hId
    rw [h.registers]
    exact hFits.writes id hId
  simp only [execute]
  rw [hFound]
  refine (Frame.readWords_ends (undefined rest) fun operand hOperand =>
    h.mem_registers hRest hOperand).bind fun words _ => ?_
  cases hBody : f.isDeclaration with
  | true => exact ⟨hNext, rfl, hDestination⟩
  | false => exact ⟨hNext, rfl, ⟨callee, hFound⟩, hBody, hDestination⟩

/-- Each instruction of a verified function. -/
theorem execute_ends : Step.Ends frame.MayStop (Action.Steady module frame)
    (execute module (frame.past rest) instruction) := by
  obtain ⟨block, hBlock, hArrived, hFits⟩ := h.fits (hRest ▸ List.mem_cons_self)
  cases instruction with
  | alloca slot => exact h.resume_writeSlot hRest rfl rfl 0
  | load destination slot =>
    have hSlot : slot.index < frame.slots.size := by
      rw [h.slots]
      exact hFits.slot slot rfl
    obtain ⟨word, hWord⟩ := Table.exists_of_lt hSlot
    simp only [execute]
    rw [show (frame.past rest).slots.get? slot = some word from hWord]
    exact h.resume_write hRest rfl rfl (.int word)
  | store slot value =>
    simp only [execute]
    refine (Frame.readWord_ends (undefined rest) (h.mem_registers hRest List.mem_cons_self)).bind
      fun word _ => ?_
    exact h.resume_writeSlot hRest rfl rfl word
  | arith op destination lhs rhs =>
    simp only [execute]
    refine (Frame.readWord_ends (undefined rest) (h.mem_registers hRest List.mem_cons_self)).bind
      fun left _ => ?_
    refine (Frame.readWord_ends (undefined rest)
      (h.mem_registers hRest (List.mem_cons_of_mem _ List.mem_cons_self))).bind fun right _ => ?_
    exact h.resume_write hRest rfl rfl _
  | compare predicate destination lhs rhs =>
    simp only [execute]
    refine (Frame.readWord_ends (undefined rest) (h.mem_registers hRest List.mem_cons_self)).bind
      fun left _ => ?_
    refine (Frame.readWord_ends (undefined rest)
      (h.mem_registers hRest (List.mem_cons_of_mem _ List.mem_cons_self))).bind fun right _ => ?_
    exact h.resume_write hRest rfl rfl _
  | extend destination operand ty =>
    simp only [execute]
    refine (Frame.readWord_ends (undefined rest) (h.mem_registers hRest List.mem_cons_self)).bind
      fun word _ => ?_
    exact h.resume_write hRest rfl rfl _
  | call callee arguments destination => exact h.execute_call hRest rfl
  | phi destination sources => exact h.execute_phi hRest rfl
  | jump target => exact h.resume_goto hRest List.mem_cons_self hFits.placed
  | branch condition positive negative =>
    simp only [execute]
    refine (Frame.read_ends (undefined rest) (h.mem_registers hRest List.mem_cons_self)).bind
      fun value _ => ?_
    cases value.toBool with
    | true => exact h.resume_goto hRest List.mem_cons_self hFits.placed.1
    | false =>
      exact h.resume_goto hRest (List.mem_cons_of_mem _ List.mem_cons_self) hFits.placed.2
  | ret value =>
    cases value with
    | none => exact trivial
    | some operand =>
      simp only [execute]
      exact (Frame.read_ends (undefined rest) (h.mem_registers hRest List.mem_cons_self)).bind
        fun _ _ => trivial

end Frame.Steady

/-- The frames that wait around a running one can go on, and have a register for its result if it
gives one. -/
def Frame.Stacked (module : Module) : Frame → List Frame → Prop
  | _, [] => True
  | frame, caller :: rest => caller.Steady module ∧
    (∀ id, frame.destination = some id → id.index < caller.registers.size) ∧ Stacked module caller rest

theorem Frame.Stacked.congr {module : Module} {frame next : Frame} {callers : List Frame}
    (h : frame.Stacked module callers) (hDestination : next.destination = frame.destination) :
    next.Stacked module callers := by
  cases callers with
  | nil => exact trivial
  | cons caller rest =>
    obtain ⟨hSteady, hRegister, hRest⟩ := h
    exact ⟨hSteady, fun id hId => hRegister id (hDestination ▸ hId), hRest⟩

namespace Machine

variable {σ : Type} {module : Module}

/-- A run of a verified module: its frames are steady, and it does not end with a fault if every parameter has a
register. -/
def Secure (module : Module) : Progress σ → Prop
  | .running frame callers _ => frame.Steady module ∧ frame.Stacked module callers.frames
  | .halted result _ =>
    (∀ f ∈ module.functions.values, ∀ id ∈ f.parameters, id.index < f.registers.size) → result ≠ .error .fault

/-- A result is written to the frame that waits for it. -/
theorem receive_secure {frame : Frame} {callers : Callers} (hSteady : frame.Steady module)
    (hStacked : frame.Stacked module callers.frames) {destination : Option RegisterId}
    (hDestination : ∀ id, destination = some id → id.index < frame.registers.size) (value : Option Value)
    (state : σ) : Secure module (proceed callers state (frame.receive destination value)) := by
  cases destination with
  | none => exact ⟨hSteady, hStacked⟩
  | some id =>
    cases value with
    | none => exact ⟨hSteady, hStacked⟩
    | some value =>
      have hWrite : frame.receive (some id) (some value) = .ok (frame.put id value) :=
        frame.write_eq (hDestination id rfl) value
      rw [hWrite]
      exact ⟨hSteady.put id value, hStacked.congr rfl⟩

theorem step_of_error (host : Host σ) (limit : Nat) {frame : Frame} (callers : Callers) (state : σ)
    {instruction : Instruction} {rest : List Instruction} (hRest : frame.rest = instruction :: rest)
    {stop : Stop} (h : execute module (frame.past rest) instruction = .error stop) :
    step host module limit frame callers state = .halted (.error stop) state := by
  have hExecute : execute module { frame with rest } instruction = .error stop := h
  rw [step, hRest]
  dsimp only
  rw [hExecute]

section Verified

variable (hModule : module.WellFormed)
include hModule

/-- A function with a body can be entered if its parameters have registers, and then it starts steadily. -/
theorem enter_secure {f : Function} (hMem : f ∈ module.functions.values) (hBody : f.isDeclaration = false)
    (arguments : List Word) (destination : Option RegisterId) {callers : Callers} (state : σ)
    (hCallers : ∀ frame : Frame, frame.destination = destination → frame.Stacked module callers.frames) :
    Secure module (proceed callers state (Frame.enter f arguments destination)) := by
  have hWellFormed := hModule.body f hMem hBody
  have hSize : (⟨0⟩ : BlockId).index < f.blocks.size := f.isDeclaration_eq_false_iff.mp hBody
  obtain ⟨block, hBlock⟩ := Table.exists_of_lt hSize
  have hBlank : (Frame.blank f block.code destination).Steady module :=
    ⟨hWellFormed, Frame.size_blank _ _ _, Array.size_replicate,
      ⟨block, hBlock, List.suffix_refl _, fun _ hSource => by cases hSource⟩,
      hWellFormed.closed _ block hBlock, fun _ => rfl⟩
  cases hEnter : Frame.enter f arguments destination with
  | ok frame =>
    have hFold : (f.parameters.zip arguments).foldlM (fun frame (id, argument) => frame.write id (.int argument))
        (Frame.blank f block.code destination) = (.ok frame : Step Frame) := by
      rw [Frame.enter, hBlock] at hEnter
      exact hEnter
    obtain ⟨hSteady, hDestination⟩ := hBlank.foldlM_write hFold
    exact ⟨hSteady, hCallers frame hDestination⟩
  | error stop =>
    intro hParameters
    rw [Frame.enter_eq hBlock (hParameters f hMem) arguments destination] at hEnter
    cases hEnter

theorem act_secure {frame : Frame} {callers : Callers} (hStacked : frame.Stacked module callers.frames)
    (host : Host σ) (limit : Nat) (state : σ) {action : Action} (h : action.Steady module frame) :
    Secure module (act host limit frame.destination callers state action) := by
  cases action with
  | resume next => exact ⟨h.1, hStacked.congr h.2⟩
  | call next callee arguments register =>
    obtain ⟨hNext, hSame, ⟨id, hFound⟩, hBody, hRegister⟩ := h
    have hMem : callee ∈ module.functions.values :=
      List.mem_map.mpr ⟨(id, callee), IdMap.mem_of_get? hFound, rfl⟩
    rw [act, enter]
    split
    · exact fun _ => nofun
    · refine enter_secure hModule hMem hBody arguments register state fun first hDestination => ?_
      exact ⟨hNext, fun id hId => hRegister id (hDestination ▸ hId), hStacked.congr hSame⟩
  | host next symbol arguments register =>
    obtain ⟨hNext, hSame, hRegister⟩ := h
    rw [act]
    split
    · exact fun _ => nofun
    · exact receive_secure hNext (hStacked.congr hSame) hRegister _ _
  | ret value =>
    obtain ⟨frames, depth, hDepth⟩ := callers
    cases frames with
    | nil => exact fun _ => nofun
    | cons caller others => exact receive_secure hStacked.1 hStacked.2.2 hStacked.2.1 value state

theorem step_secure (host : Host σ) (limit : Nat) {frame : Frame} {callers : Callers} {state : σ}
    (h : Secure module (.running frame callers state)) :
    Secure module (step host module limit frame callers state) := by
  obtain ⟨hSteady, hStacked⟩ := h
  obtain ⟨instruction, rest, hRest⟩ := hSteady.exists_next
  have hEnds := hSteady.execute_ends hRest
  match hExecute : execute module (frame.past rest) instruction, hEnds with
  | .ok action, hAction =>
    rw [step_of_execute host limit callers state hRest hExecute]
    exact act_secure hModule hStacked host limit state hAction
  | .error (.error error), _ =>
    rw [step_of_error host limit callers state hRest hExecute]
    exact fun _ => nofun

theorem advance_secure (host : Host σ) (limit fuel : Nat) {progress : Progress σ}
    (h : Secure module progress) : Secure module (advance host module limit fuel progress) := by
  induction fuel generalizing progress with
  | zero =>
    rw [advance_zero]
    exact h
  | succ fuel ih =>
    cases progress with
    | halted result state =>
      rw [advance_halted]
      exact h
    | running frame callers state => exact ih (step_secure hModule host limit h)

theorem start_secure (host : Host σ) (name : String) (arguments : List Word) (state : σ) :
    Secure module (start host module name arguments state) := by
  rw [start]
  split
  · exact fun _ => nofun
  · rename_i id f hFound
    split
    · exact fun _ => nofun
    · split
      · split
        · exact fun _ => nofun
        · exact fun _ => nofun
      · rename_i hBody
        have hMem : f ∈ module.functions.values :=
          List.mem_map.mpr ⟨(id, f), List.mem_reverse.mp (List.mem_of_find?_eq_some hFound), rfl⟩
        exact enter_secure hModule hMem (Bool.not_eq_true _ ▸ hBody) arguments none state fun _ _ => trivial

end Verified

end Machine

/-- Verification is sound for execution. However a module that passes it is called, no reachable state faults;
in each of them the next instruction finds the function it calls, and a phi misses its source
only in the first block of a frame that has not jumped yet. -/
theorem Module.call_sound (module : Module) (hVerify : module.verify = [])
    (hParameters : ∀ f ∈ module.functions.values, ∀ id ∈ f.parameters, id.index < f.registers.size)
    {σ : Type} (host : Host σ) (limit fuel : Nat) (name : String) (arguments : List Word) (state : σ) :
    match Machine.call host module limit fuel name arguments state with
    | .halted result _ => result ≠ .error .fault
    | .running frame _ _ => ∃ instruction rest, frame.rest = instruction :: rest ∧
      ∀ stop, execute module { frame with rest } instruction = .error stop →
        ∃ error, stop = .error error ∧ (∀ callee, error ≠ .unknownFunction callee) ∧
          ∀ f, error = .missingPhiSource f → frame.block = ⟨0⟩ ∧ frame.previous = none := by
  have hModule := module.verify_eq_nil_iff.mp hVerify
  have hSecure := advance_secure hModule host limit fuel (start_secure hModule host name arguments state)
  rw [← Machine.call] at hSecure
  split
  · rename_i hCall
    rw [hCall] at hSecure
    exact hSecure hParameters
  · rename_i frame callers after hCall
    rw [hCall] at hSecure
    obtain ⟨instruction, rest, hRest⟩ := hSecure.1.exists_next
    refine ⟨instruction, rest, hRest, fun stop hStop => ?_⟩
    have hEnds := hSecure.1.execute_ends hRest
    rw [show execute module (frame.past rest) instruction = .error stop from hStop] at hEnds
    match stop, hEnds with
    | .error error, hMayStop =>
      exact ⟨error, rfl, hMayStop.ne_unknownFunction, fun _ hEq => hMayStop.of_missingPhiSource hEq⟩

/-- A function that starts with a phi, which has no source to take. -/
def startsWithPhi : Module where
  name := "m"
  functions := .ofList [(⟨0⟩, {
    name := "f"
    signature := .ofArity 1
    linkage := .external
    registers := .ofList [.i32, .i32]
    parameters := [⟨0⟩]
    blocks := .ofList [{
      label := "entry"
      code := [.phi ⟨1⟩ .empty, .ret (some (.register ⟨0⟩))] }] })]

theorem Module.call_sound_startsWithPhi :
    startsWithPhi.verify = [] ∧
      ∃ frame callers, Machine.call standardHost startsWithPhi 5 0 "f" [7] {} = .running frame callers {} ∧
      Machine.call standardHost startsWithPhi 5 1 "f" [7] {} =
        .halted (.error (.error (.missingPhiSource "f"))) {} ∧
      frame.block = ⟨0⟩ ∧ frame.previous = none := by
  have hVerify : startsWithPhi.verify = [] := by decide +kernel
  have hParameters : ∀ f ∈ startsWithPhi.functions.values, ∀ id ∈ f.parameters,
      id.index < f.registers.size := by decide +kernel
  refine ⟨hVerify, _, _, rfl, rfl, ?_⟩
  obtain ⟨instruction, rest, hRest, hStops⟩ :=
    Module.call_sound startsWithPhi hVerify hParameters standardHost 5 0 "f" [7] {}
  cases hRest
  obtain ⟨error, hError, -, hFirst⟩ := hStops (.error (.missingPhiSource "f")) rfl
  cases hError
  exact hFirst "f" rfl

end Slate
