import Slate.Machine
import Slate.Proofs.Tables

/-! # Frames

What each operation of a frame gives where everything it looks up is there.
-/

namespace Slate
set_option autoImplicit false

namespace Frame

def past (frame : Frame) (rest : List Instruction) : Frame := { frame with rest }

def put (frame : Frame) (id : RegisterId) (value : Value) : Frame :=
  { frame with registers := frame.registers.set id (some value) }

def putSlot (frame : Frame) (id : SlotId) (word : Word) : Frame :=
  { frame with slots := frame.slots.set id word }

def startOf (frame : Frame) (target : BlockId) (code : List Instruction) : Frame :=
  { frame with block := target, previous := some frame.block, rest := code }

/-- A register holds a value. -/
def Holds (frame : Frame) (id : RegisterId) (value : Value) : Prop :=
  frame.registers.get? id = some (some value)

def Written (frame : Frame) (id : RegisterId) : Prop := ∃ value, frame.Holds id value

variable (frame : Frame)

theorem size_put (id : RegisterId) (value : Value) :
    (frame.put id value).registers.size = frame.registers.size :=
  Table.size_set _ _ _

theorem size_putSlot (id : SlotId) (word : Word) :
    (frame.putSlot id word).slots.size = frame.slots.size :=
  Table.size_set _ _ _

theorem get?_put {id : RegisterId} (hId : id.index < frame.registers.size) (value : Value)
    (key : RegisterId) : (frame.put id value).registers.get? key =
      if key = id then some (some value) else frame.registers.get? key := by
  rw [put, Table.get?_set]
  simp [hId]

theorem holds_put {id : RegisterId} (hId : id.index < frame.registers.size) (value : Value) :
    (frame.put id value).Holds id value := by
  rw [Holds, frame.get?_put hId, if_pos rfl]

theorem holds_put_of_ne {id key : RegisterId} (hId : id.index < frame.registers.size) (value : Value)
    (hNe : key ≠ id) {found : Value} : (frame.put id value).Holds key found ↔ frame.Holds key found := by
  rw [Holds, frame.get?_put hId, if_neg hNe, Holds]

theorem written_put {id : RegisterId} (hId : id.index < frame.registers.size) (value : Value)
    {key : RegisterId} (h : frame.Written key ∨ some id = some key) : (frame.put id value).Written key := by
  by_cases hKey : key = id
  · rw [hKey]
    exact ⟨value, frame.holds_put hId value⟩
  · rcases h with ⟨found, hFound⟩ | hEq
    · exact ⟨found, (frame.holds_put_of_ne hId value hKey).mpr hFound⟩
    · exact absurd (Option.some.inj hEq).symm hKey

theorem get?_putSlot {id : SlotId} (hId : id.index < frame.slots.size) (word : Word) (key : SlotId) :
    (frame.putSlot id word).slots.get? key =
      if key = id then some word else frame.slots.get? key := by
  rw [putSlot, Table.get?_set]
  simp [hId]

theorem write_eq {id : RegisterId} (hId : id.index < frame.registers.size) (value : Value) :
    frame.write id value = .ok (frame.put id value) :=
  if_pos ((Table.contains_iff _ _).mpr hId)

theorem writeSlot_eq {id : SlotId} (hId : id.index < frame.slots.size) (word : Word) :
    frame.writeSlot id word = .ok (frame.putSlot id word) :=
  if_pos ((Table.contains_iff _ _).mpr hId)

theorem goto_eq {target : BlockId} {block : Block}
    (h : frame.function.blocks.get? target = some block) :
    frame.goto target = .ok (frame.startOf target block.code) := by
  rw [goto, h]
  rfl

theorem read_of_holds {id : RegisterId} {value : Value} (h : frame.Holds id value) :
    frame.read (.register id) = .ok value := by
  simp only [read]
  rw [h]

theorem mapM_readWord {frame : Frame} {operands : List Operand} {words : List Word}
    (h : List.Forall₂ (fun operand word => frame.readWord operand = .ok word) operands words) :
    operands.mapM frame.readWord = (.ok words : Step (List Word)) := by
  induction h with
  | nil => rfl
  | cons hFirst _ ih =>
    rw [List.mapM_cons, hFirst, ih]
    rfl

/-- The frame in which a function starts, before its arguments are written. -/
def blank (function : Function) (code : List Instruction) (destination : Option RegisterId) : Frame where
  function := function
  registers := ⟨Array.replicate function.registers.size none⟩
  slots := ⟨Array.replicate function.slots.size 0⟩
  block := ⟨0⟩
  previous := none
  rest := code
  destination := destination

def withArguments (pairs : List (RegisterId × Word)) : Frame :=
  pairs.foldl (fun frame pair => frame.put pair.1 (.int pair.2)) frame

section Arguments

variable {frame} {pairs : List (RegisterId × Word)}

theorem withArguments_eq : frame.withArguments pairs =
    { frame with registers := (frame.withArguments pairs).registers } := by
  induction pairs generalizing frame with
  | nil => rfl
  | cons first rest ih => exact ih

@[simp] theorem function_withArguments : (frame.withArguments pairs).function = frame.function := by
  rw [withArguments_eq]

@[simp] theorem slots_withArguments : (frame.withArguments pairs).slots = frame.slots := by
  rw [withArguments_eq]

@[simp] theorem block_withArguments : (frame.withArguments pairs).block = frame.block := by
  rw [withArguments_eq]

@[simp] theorem previous_withArguments : (frame.withArguments pairs).previous = frame.previous := by
  rw [withArguments_eq]

@[simp] theorem rest_withArguments : (frame.withArguments pairs).rest = frame.rest := by
  rw [withArguments_eq]

@[simp] theorem destination_withArguments :
    (frame.withArguments pairs).destination = frame.destination := by
  rw [withArguments_eq]

theorem size_withArguments : (frame.withArguments pairs).registers.size = frame.registers.size := by
  induction pairs generalizing frame with
  | nil => rfl
  | cons first rest ih => exact ih.trans (frame.size_put _ _)

variable (hPairs : ∀ pair ∈ pairs, pair.1.index < frame.registers.size)
include hPairs

theorem foldlM_write : pairs.foldlM (fun frame (id, argument) => frame.write id (.int argument)) frame =
    (.ok (frame.withArguments pairs) : Step Frame) := by
  induction pairs generalizing frame with
  | nil => rfl
  | cons first rest ih =>
    obtain ⟨id, argument⟩ := first
    have hFirst : frame.write id (.int argument) = .ok (frame.put id (.int argument)) :=
      frame.write_eq (hPairs (id, argument) List.mem_cons_self) _
    rw [List.foldlM_cons]
    dsimp only
    rw [hFirst]
    refine ih fun pair hPair => ?_
    rw [size_put]
    exact hPairs pair (List.mem_cons_of_mem _ hPair)

theorem holds_withArguments_of_notMem {id : RegisterId} {value : Value}
    (hId : id ∉ pairs.map Prod.fst) :
    (frame.withArguments pairs).Holds id value ↔ frame.Holds id value := by
  induction pairs generalizing frame with
  | nil => exact Iff.rfl
  | cons first rest ih =>
    rw [List.map_cons, List.mem_cons, not_or] at hId
    have hSize : ∀ pair ∈ rest, pair.1.index < (frame.put first.1 (.int first.2)).registers.size := by
      intro pair hPair
      rw [size_put]
      exact hPairs pair (List.mem_cons_of_mem _ hPair)
    exact (ih hSize hId.2).trans (frame.holds_put_of_ne (hPairs first List.mem_cons_self) _ hId.1)

theorem holds_withArguments (hNodup : (pairs.map Prod.fst).Nodup) {pair : RegisterId × Word}
    (hPair : pair ∈ pairs) : (frame.withArguments pairs).Holds pair.1 (.int pair.2) := by
  induction pairs generalizing frame with
  | nil => cases hPair
  | cons first rest ih =>
    rw [List.map_cons, List.nodup_cons] at hNodup
    have hSize : ∀ pair ∈ rest, pair.1.index < (frame.put first.1 (.int first.2)).registers.size := by
      intro pair hPair
      rw [size_put]
      exact hPairs pair (List.mem_cons_of_mem _ hPair)
    rcases List.mem_cons.mp hPair with rfl | hPair
    · exact (holds_withArguments_of_notMem hSize hNodup.1).mpr
        (frame.holds_put (hPairs pair List.mem_cons_self) _)
    · exact ih hSize hNodup.2 hPair

end Arguments

theorem size_blank (function : Function) (code : List Instruction) (destination : Option RegisterId) :
    (blank function code destination).registers.size = function.registers.size := by
  simp [blank, Table.size]

theorem get?_slots_blank (function : Function) (code : List Instruction)
    (destination : Option RegisterId) {slot : SlotId} (h : slot.index < function.slots.size) :
    (blank function code destination).slots.get? slot = some 0 := by
  simp [blank, Table.get?, h]

theorem enter_eq {function : Function} {block : Block} (hBlock : function.blocks.get? ⟨0⟩ = some block)
    (hParameters : ∀ id ∈ function.parameters, id.index < function.registers.size)
    (arguments : List Word) (destination : Option RegisterId) :
    enter function arguments destination =
      .ok ((blank function block.code destination).withArguments
        (function.parameters.zip arguments)) := by
  rw [enter, hBlock]
  apply foldlM_write
  intro pair hPair
  exact Nat.lt_of_lt_of_eq (hParameters pair.1 (List.of_mem_zip hPair).1) (size_blank _ _ _).symm

/-- The parameters of a new frame hold the arguments. -/
theorem holds_parameter {function : Function} (hNodup : function.parameters.Nodup)
    (hParameters : ∀ id ∈ function.parameters, id.index < function.registers.size)
    {arguments : List Word} (hLength : arguments.length = function.parameters.length)
    (code : List Instruction) (destination : Option RegisterId) {id : RegisterId} {word : Word}
    (hMem : (id, word) ∈ function.parameters.zip arguments) :
    ((blank function code destination).withArguments (function.parameters.zip arguments)).Holds id
      (.int word) := by
  refine holds_withArguments (fun pair hPair => ?_) ?_ hMem
  · rw [size_blank]
    exact hParameters pair.1 (List.of_mem_zip hPair).1
  · rw [List.map_fst_zip (Nat.le_of_eq hLength.symm)]
    exact hNodup

end Frame

namespace Machine

variable {σ : Type}

/-- What the stack does for an instruction. -/
def act (host : Host σ) (limit : Nat) (destination : Option RegisterId) (callers : Callers) (state : σ) :
    Action → Progress σ
  | .resume next => .running next callers state
  | .call next callee arguments register =>
    enter limit next callers callee arguments register state
  | .host next symbol arguments register =>
    match host.call symbol arguments state with
    | (.error error, after) => .halted (.error (.error error)) after
    | (.ok result, after) => proceed callers after (next.receive register (result.map Value.int))
  | .ret value =>
    match callers.pop? with
    | none => .halted (.ok (value.map Value.toWord)) state
    | some (caller, others) => proceed others state (caller.receive destination value)

theorem step_of_execute (host : Host σ) {module : Module} (limit : Nat) {frame : Frame}
    (callers : Callers) (state : σ) {instruction : Instruction} {rest : List Instruction}
    (hRest : frame.rest = instruction :: rest) {action : Action}
    (h : execute module (frame.past rest) instruction = .ok action) :
    step host module limit frame callers state =
      act host limit frame.destination callers state action := by
  have hExecute : execute module { frame with rest } instruction = .ok action := h
  rw [step, hRest]
  dsimp only
  rw [hExecute]
  cases action <;> rfl

end Machine
end Slate
