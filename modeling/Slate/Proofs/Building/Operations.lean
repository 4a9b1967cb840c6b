import Mathlib
import Slate.Ir.Builder
import Slate.Proofs.Lowering.Names

/-! # Histories of builders

A history is a sequence of operations on one builder, of which none fails. Handles are not checked against
what earlier operations have answered, so a history may use old ones, or such as were never given out.

A ledger goes along with a history. It holds, for every function, the ids that were given out for its rows, in
the order in which they were given out, until the body is discarded.

`Operation.changes` says all that an operation can do to a builder and its ledger: nothing that matters, a new
declaration, a discarded body, or one edit of one function.
-/

namespace Slate
set_option autoImplicit false

/-- An operation with its arguments. -/
inductive Operation where
  | declare (name : String) (signature : Signature) (linkage : Linkage)
  | lookup (name : String)
  | signature (id : FunctionId)
  | hasBody (id : FunctionId)
  | isReferenced (id : FunctionId)
  | discard (id : FunctionId)
  | parameter (id : FunctionId) (index : Nat)
  | createBlock (id : FunctionId) (label : String)
  | entryBlock (id : FunctionId)
  | setInsertionPoint (place : BlockRef)
  | insertionBlock
  | valueType (value : Operand)
  | alloca (place : BlockRef) (slot : Slot)
  | arith (op : Arith) (lhs rhs : Operand)
  | compare (predicate : Predicate) (lhs rhs : Operand)
  | extend (value : Operand) (ty : Ty)
  | load (slot : SlotRef)
  | store (slot : SlotRef) (value : Operand)
  | call (callee : FunctionId) (arguments : List Operand)
  | jump (target : BlockRef)
  | branch (condition : Operand) (positive negative : BlockRef)
  | phi (ty : Ty) (incoming : List (Operand × BlockRef))
  | ret (value : Option Operand)

/-- What an operation has made or deleted, by the handle that it answered with. -/
inductive Outcome where
  | nothing
  | function (id : FunctionId)
  | block (place : BlockRef)
  | slot (place : SlotRef)
  | value (operand : Operand)
  | discarded (id : FunctionId)

/-- A call has made a value unless its result is void. -/
def Outcome.ofResult : Option Operand → Outcome
  | some operand => .value operand
  | none => .nothing

/-- Asks a builder for something. -/
def Build.asking {α : Type} (action : Build α) : Build Outcome := do
  let _ ← action
  return .nothing

def Operation.run : Operation → Build Outcome
  | .declare name shape linkage => .function <$> Builder.declare name shape linkage
  | .lookup name => Build.asking (Builder.lookup name)
  | .signature id => Build.asking (Builder.signature id)
  | .hasBody id => Build.asking (Builder.hasBody id)
  | .isReferenced id => Build.asking (Builder.isReferenced id)
  | .discard id => (fun _ => .discarded id) <$> Builder.discard id
  | .parameter id index => Build.asking (Builder.parameter id index)
  | .createBlock id label => .block <$> Builder.createBlock id label
  | .entryBlock id => Build.asking (Builder.entryBlock id)
  | .setInsertionPoint place => (fun _ => .nothing) <$> Builder.setInsertionPoint place
  | .insertionBlock => Build.asking Builder.insertionBlock
  | .valueType value => Build.asking (Builder.valueType value)
  | .alloca place slot => .slot <$> Builder.alloca place slot
  | .arith op lhs rhs => .value <$> Builder.arith op lhs rhs
  | .compare predicate lhs rhs => .value <$> Builder.compare predicate lhs rhs
  | .extend value ty => .value <$> Builder.extend value ty
  | .load slot => .value <$> Builder.load slot
  | .store slot value => (fun _ => .nothing) <$> Builder.store slot value
  | .call callee arguments => .ofResult <$> Builder.call callee arguments
  | .jump target => (fun _ => .nothing) <$> Builder.jump target
  | .branch condition positive negative =>
    (fun _ => .nothing) <$> Builder.branch condition positive negative
  | .phi ty incoming => .value <$> Builder.phi ty incoming
  | .ret value => (fun _ => .nothing) <$> Builder.ret value

/-- The ids that were given out for the rows of a function, in order. -/
structure Issued where
  registers : List RegisterId
  slots : List SlotId := []
  blocks : List BlockId := []
  deriving DecidableEq

abbrev Ledger := FunctionId → Option Issued

namespace Ledger

def edit (ledger : Ledger) (id : FunctionId) (change : Issued → Issued) : Ledger :=
  Function.update ledger id ((ledger id).map change)

/-- A function in its bare form, if it is there, has given out the registers of its parameters. -/
def bare (ledger : Ledger) (id : FunctionId) (function : Option Function) : Ledger :=
  Function.update ledger id (function.map fun f => { registers := f.parameters })

def record (ledger : Ledger) (before after : Builder) : Outcome → Ledger
  | .nothing | .value (.const _) => ledger
  | .function id | .discarded id => ledger.bare id (after.module.get? id)
  | .block place => ledger.edit place.function fun issued =>
    { issued with blocks := issued.blocks ++ [place.block] }
  | .slot place => ledger.edit place.function fun issued =>
    { issued with slots := issued.slots ++ [place.slot] }
  | .value (.register id) =>
    match before.cursor with
    | some place => ledger.edit place.function fun issued =>
      { issued with registers := issued.registers ++ [id] }
    | none => ledger

end Ledger

/-- Does one operation after the other and keeps the ledger. -/
def Operation.runAll : List Operation → Builder × Ledger → Option (Builder × Ledger)
  | [], state => some state
  | first :: rest, (builder, ledger) => do
    let (outcome, after) ← first.run builder
    runAll rest (after, ledger.record builder after outcome)

/-- The builder and the ledger at the end of a history that starts with a new module. -/
def Builder.after? (module : String) (history : List Operation) : Option (Builder × Ledger) :=
  Operation.runAll history (.new module, fun _ => none)

/-! ## What an operation does -/

/-- One edit of a function, and what it does to the ids that were given out. The functions that may be
called are given. -/
inductive Function.Edits (known : FunctionId → Prop) (f : Function) : (Issued → Issued) → Function → Prop
  | block (label : String) : Edits known f
      (fun issued => { issued with blocks := issued.blocks ++ [f.blocks.nextId] }) (f.newBlock label)
  | slot {at_ : BlockId} (inside : at_.index < f.blocks.size) (row : Slot) : Edits known f
      (fun issued => { issued with slots := issued.slots ++ [f.slots.nextId] }) (f.newSlot at_ row)
  /-- An instruction that writes no register. -/
  | plain {at_ : BlockId} (inside : at_.index < f.blocks.size) {instruction : Instruction}
      (destination : instruction.destination? = none) (alloca : instruction.isAlloca = false)
      (targets : ∀ target ∈ instruction.targets, target.index < f.blocks.size)
      (calls : ∀ callee, instruction.calls callee = true → known callee) :
      Edits known f id (f.add at_ instruction)
  /-- An instruction that writes a new register. -/
  | result {at_ : BlockId} (inside : at_.index < f.blocks.size) (ty : Ty) {instruction : Instruction}
      (destination : instruction.destination? = some f.registers.nextId)
      (calls : ∀ callee, instruction.calls callee = true → known callee) :
      Edits known f (fun issued => { issued with registers := issued.registers ++ [f.registers.nextId] })
        ((f.newRegister ty).add at_ instruction)

def Assembly.Has (assembly : Assembly) (id : FunctionId) : Prop := ∃ f, assembly.get? id = some f

/-- What an operation may do to an assembly and a ledger. -/
inductive Assembly.Changes (assembly : Assembly) (ledger : Ledger) : Assembly → Ledger → Prop
  | idle : Changes assembly ledger assembly ledger
  | declared (name : String) (signature : Signature) (linkage : Linkage) :
      Changes assembly ledger (assembly.declare name signature linkage)
        (ledger.bare assembly.next (some (.bare name signature linkage)))
  | discarded {id : FunctionId} {f : Function} (found : assembly.get? id = some f) :
      Changes assembly ledger (assembly.discard id f)
        (ledger.bare id ((assembly.discard id f).get? id))
  | edited {id : FunctionId} {f f' : Function} {change : Issued → Issued}
      (found : assembly.get? id = some f) (edits : f.Edits assembly.Has change f') :
      Changes assembly ledger (assembly.put id f') (ledger.edit id change)

section Inversion

variable {σ α β : Type}

theorem bind_eq_some_iff {action : StateT σ Option α} {next : α → StateT σ Option β} {state : σ}
    {result : β × σ} : (action >>= next) state = some result ↔
      ∃ value after, action state = some (value, after) ∧ next value after = some result := by
  change (action state).bind (fun p => next p.1 p.2) = some result ↔ _
  rw [Option.bind_eq_some_iff]
  constructor
  · rintro ⟨⟨value, after⟩, hAction, hNext⟩
    exact ⟨value, after, hAction, hNext⟩
  · rintro ⟨value, after, hAction, hNext⟩
    exact ⟨(value, after), hAction, hNext⟩

theorem map_eq_some_iff {action : StateT σ Option α} {f : α → β} {state after : σ} {result : β} :
    (f <$> action) state = some (result, after) ↔
      ∃ value, action state = some (value, after) ∧ f value = result := by
  rw [map_eq_pure_bind, bind_eq_some_iff]
  constructor
  · rintro ⟨value, state', hAction, hPure⟩
    cases hPure
    exact ⟨value, hAction, rfl⟩
  · rintro ⟨value, hAction, rfl⟩
    exact ⟨value, after, hAction, rfl⟩

/-- An action that only asks leaves the state as it is. -/
def Asks (action : StateT σ Option α) : Prop :=
  ∀ state value after, action state = some (value, after) → after = state

namespace Asks

theorem pure (value : α) : Asks (Pure.pure value : StateT σ Option α) := by
  intro state value' after h
  cases h
  rfl

theorem bind {action : StateT σ Option α} {next : α → StateT σ Option β} (h : Asks action)
    (hNext : ∀ value, Asks (next value)) : Asks (action >>= next) := by
  intro state value after hRun
  obtain ⟨middle, between, hAction, hRest⟩ := bind_eq_some_iff.mp hRun
  rw [hNext middle between value after hRest]
  exact h state middle between hAction

theorem get : Asks (get : StateT σ Option σ) := by
  intro state value after h
  cases h
  rfl

theorem lift (value : Option α) : Asks (StateT.lift value : StateT σ Option α) := by
  intro state found after h
  cases value with
  | none => cases h
  | some value =>
    cases h
    rfl

theorem check (condition : Prop) [Decidable condition] :
    Asks (guard condition : StateT σ Option Unit) := by
  intro state value after h
  rw [guard] at h
  split at h
  · cases h
    rfl
  · cases h

theorem mapM {action : α → StateT σ Option β} (h : ∀ a, Asks (action a)) (list : List α) :
    Asks (list.mapM action) := by
  induction list with
  | nil =>
    rw [List.mapM_nil]
    exact pure []
  | cons first rest ih =>
    rw [List.mapM_cons]
    exact (h first).bind fun _ => ih.bind fun _ => pure _

end Asks
end Inversion

namespace Builder

variable {α : Type} {builder after : Builder} {ledger : Ledger}

theorem function_asks (id : FunctionId) : Asks (Builder.function id) :=
  Asks.get.bind fun _ => .lift _

theorem insertionBlock_asks : Asks insertionBlock :=
  Asks.get.bind fun _ => .lift _

theorem localBlock_asks (place : BlockRef) : Asks (localBlock place) :=
  insertionBlock_asks.bind fun _ => (Asks.check _).bind fun _ => .pure _

theorem targetBlock_asks (place : BlockRef) : Asks (targetBlock place) :=
  (localBlock_asks place).bind fun _ => (function_asks _).bind fun _ => (Asks.check _).bind fun _ => .pure _

theorem get?_of_function {id : FunctionId} {f : Function}
    (h : Builder.function id builder = some (f, after)) : builder.assembly.get? id = some f := by
  obtain ⟨state, between, hGet, hLift⟩ := bind_eq_some_iff.mp h
  cases hGet
  cases hFound : builder.assembly.get? id with
  | none =>
    rw [hFound] at hLift
    cases hLift
  | some g =>
    rw [hFound] at hLift
    cases hLift
    rfl

theorem cursor_of_insertionBlock {place : BlockRef}
    (h : insertionBlock builder = some (place, after)) : builder.cursor = some place := by
  obtain ⟨state, between, hGet, hLift⟩ := bind_eq_some_iff.mp h
  cases hGet
  cases hCursor : builder.cursor with
  | none =>
    rw [hCursor] at hLift
    cases hLift
  | some found =>
    rw [hCursor] at hLift
    cases hLift
    rfl

theorem condition_of_check {σ : Type} {condition : Prop} [Decidable condition] {state : σ} {result : Unit × σ}
    (h : (guard condition : StateT σ Option Unit) state = some result) : condition := by
  rw [guard] at h
  split at h
  · assumption
  · cases h

/-- What is done at the cursor is done to a block that is there. -/
theorem atCursor_inv {action : StateM Draft α} {value : α}
    (h : atCursor action builder = some (value, after)) :
    ∃ place f, builder.cursor = some place ∧ builder.assembly.get? place.function = some f ∧
      place.block.index < f.blocks.size ∧ value = (action ⟨f, place.block⟩).1 ∧
      after = { builder with
        assembly := builder.assembly.put place.function (action ⟨f, place.block⟩).2.function } := by
  obtain ⟨place, first, hCursor, hAtPlace⟩ := bind_eq_some_iff.mp h
  obtain rfl := insertionBlock_asks _ _ _ hCursor
  obtain ⟨f, second, hFunction, hChecked⟩ := bind_eq_some_iff.mp hAtPlace
  obtain rfl := function_asks _ _ _ _ hFunction
  obtain ⟨_, third, hGuard, hPut⟩ := bind_eq_some_iff.mp hChecked
  obtain rfl := Asks.check _ _ _ _ hGuard
  have hInside := (Table.contains_iff _ _).mp (condition_of_check hGuard)
  cases hPut
  exact ⟨place, f, cursor_of_insertionBlock hCursor, get?_of_function hFunction, hInside, rfl, rfl⟩

/-- A block that control can go to belongs to the function under the cursor. -/
theorem targetBlock_inv {place : BlockRef} {target : BlockId}
    (h : targetBlock place builder = some (target, after)) :
    ∃ cursor f, builder.cursor = some cursor ∧ builder.assembly.get? cursor.function = some f ∧
      target.index < f.blocks.size := by
  obtain ⟨block, first, hLocal, hInFunction⟩ := bind_eq_some_iff.mp h
  obtain rfl := localBlock_asks _ _ _ _ hLocal
  obtain ⟨f, second, hFunction, hChecked⟩ := bind_eq_some_iff.mp hInFunction
  obtain ⟨_, third, hGuard, hPure⟩ := bind_eq_some_iff.mp hChecked
  cases hPure
  obtain ⟨cursor, fourth, hCursor, hAtCursor⟩ := bind_eq_some_iff.mp hLocal
  obtain ⟨_, fifth, hSame, -⟩ := bind_eq_some_iff.mp hAtCursor
  have hFound := get?_of_function hFunction
  rw [condition_of_check hSame] at hFound
  have hInside := (Table.contains_iff _ _).mp (condition_of_check hGuard)
  exact ⟨cursor, f, cursor_of_insertionBlock hCursor, hFound, hInside⟩

section Cursor

variable {action : StateM Draft α} {value : α} {outcome : α → Outcome}
  (h : atCursor action builder = some (value, after))
include h

/-- An instruction with a result is added at the cursor. -/
theorem result_changes {ty : Ty} {instruction : RegisterId → Instruction}
    (hAction : ∀ draft : Draft, (action draft).2.function = (draft.function.newRegister ty).append
      draft.block (instruction draft.function.registers.nextId))
    (hOutcome : ∀ draft : Draft,
      outcome (action draft).1 = .value (.register draft.function.registers.nextId))
    (hDestination : ∀ id, (instruction id).destination? = some id)
    (hCalls : ∀ id callee, (instruction id).calls callee = true → builder.assembly.Has callee) :
    builder.assembly.Changes ledger after.assembly (ledger.record builder after (outcome value)) := by
  obtain ⟨place, f, hCursor, hFound, hInside, rfl, rfl⟩ := atCursor_inv h
  have hTargets : (instruction f.registers.nextId).targets = [] := by
    have hSome := hDestination f.registers.nextId
    cases hEq : instruction f.registers.nextId with
    | jump | branch =>
      rw [hEq] at hSome
      cases hSome
    | alloca | load | store | arith | compare | extend | call | phi | ret => rfl
  have hEdits : f.Edits builder.assembly.Has
      (fun issued => { issued with registers := issued.registers ++ [f.registers.nextId] })
      (action ⟨f, place.block⟩).2.function := by
    rw [hAction, ← Function.add_eq_append _ _ hTargets]
    exact .result hInside ty (hDestination _) (hCalls _)
  have hChanges : builder.assembly.Changes ledger _ _ := .edited hFound hEdits
  rw [hOutcome, Ledger.record, hCursor]
  exact hChanges

/-- An instruction without a result is added at the cursor. -/
theorem add_changes {instruction : Instruction}
    (hAction : ∀ draft : Draft, (action draft).2.function = draft.function.add draft.block instruction)
    (hOutcome : ∀ draft : Draft, outcome (action draft).1 = .nothing)
    (hDestination : instruction.destination? = none) (hAlloca : instruction.isAlloca = false)
    (hTargets : ∀ target ∈ instruction.targets, ∃ cursor f, builder.cursor = some cursor ∧
      builder.assembly.get? cursor.function = some f ∧ target.index < f.blocks.size)
    (hCalls : ∀ callee, instruction.calls callee = true → builder.assembly.Has callee) :
    builder.assembly.Changes ledger after.assembly (ledger.record builder after (outcome value)) := by
  obtain ⟨place, f, hCursor, hFound, hInside, rfl, rfl⟩ := atCursor_inv h
  have hInRange : ∀ target ∈ instruction.targets, target.index < f.blocks.size := by
    intro target hTarget
    obtain ⟨cursor, g, hCursor', hFound', hLess⟩ := hTargets target hTarget
    rw [hCursor] at hCursor'
    cases hCursor'
    rw [hFound] at hFound'
    cases hFound'
    exact hLess
  have hEdits : f.Edits builder.assembly.Has id (action ⟨f, place.block⟩).2.function := by
    rw [hAction]
    exact .plain hInside hDestination hAlloca hInRange hCalls
  have hSame : ledger.edit place.function id = ledger := by
    rw [Ledger.edit, Option.map_id_fun, id, Function.update_eq_self]
  have hChanges : builder.assembly.Changes ledger _ _ := .edited hFound hEdits
  rw [hSame] at hChanges
  rw [hOutcome]
  exact hChanges

end Cursor

theorem emitResult_changes {ty : Ty} {instruction : RegisterId → Instruction} {value : Operand}
    (h : atCursor (Draft.emitResult ty instruction) builder = some (value, after))
    (hDestination : ∀ id, (instruction id).destination? = some id)
    (hCalls : ∀ id callee, (instruction id).calls callee = false) :
    builder.assembly.Changes ledger after.assembly (ledger.record builder after (.value value)) := by
  apply result_changes h (fun _ => rfl) (fun _ => rfl) hDestination
  intro id callee hTrue
  rw [hCalls] at hTrue
  cases hTrue

/-- An instruction that neither has a result nor leads to a block. -/
theorem emit_changes {instruction : Instruction} {value : Unit}
    (h : atCursor (Draft.emit instruction) builder = some (value, after))
    (hDestination : instruction.destination? = none) (hAlloca : instruction.isAlloca = false)
    (hTargets : instruction.targets = []) (hCalls : ∀ callee, instruction.calls callee = false) :
    builder.assembly.Changes ledger after.assembly ledger := by
  have hChanges := @add_changes _ _ _ ledger _ _ (fun _ => .nothing) h instruction
    (fun _ => (Function.add_eq_append _ _ hTargets).symm) (fun _ => rfl) hDestination hAlloca
  apply hChanges
  · intro target hTarget
    rw [hTargets] at hTarget
    cases hTarget
  · intro callee hTrue
    rw [hCalls] at hTrue
    cases hTrue

theorem asking_changes {action : Build α} {outcome : Outcome} (hAsks : Asks action)
    (h : Build.asking action builder = some (outcome, after)) :
    builder.assembly.Changes ledger after.assembly (ledger.record builder after outcome) := by
  obtain ⟨value, between, hAction, hPure⟩ := bind_eq_some_iff.mp h
  cases hPure
  rw [hAsks _ _ _ hAction]
  exact .idle

theorem discard_changes {id : FunctionId} {value : Unit} (h : discard id builder = some (value, after)) :
    builder.assembly.Changes ledger after.assembly (ledger.record builder after (.discarded id)) := by
  obtain ⟨f, between, hFunction, hModify⟩ := bind_eq_some_iff.mp h
  obtain rfl := function_asks _ _ _ _ hFunction
  cases hModify
  exact .discarded (get?_of_function hFunction)

theorem createBlock_changes {id : FunctionId} {label : String} {place : BlockRef}
    (h : createBlock id label builder = some (place, after)) :
    builder.assembly.Changes ledger after.assembly (ledger.record builder after (.block place)) := by
  obtain ⟨f, between, hFunction, hPut⟩ := bind_eq_some_iff.mp h
  obtain rfl := function_asks _ _ _ _ hFunction
  cases hPut
  exact .edited (get?_of_function hFunction) (.block label)

theorem alloca_changes {place : BlockRef} {row : Slot} {slot : SlotRef}
    (h : alloca place row builder = some (slot, after)) :
    builder.assembly.Changes ledger after.assembly (ledger.record builder after (.slot slot)) := by
  obtain ⟨f, first, hFunction, hChecked⟩ := bind_eq_some_iff.mp h
  obtain rfl := function_asks _ _ _ _ hFunction
  obtain ⟨_, second, hGuard, hPut⟩ := bind_eq_some_iff.mp hChecked
  obtain rfl := Asks.check _ _ _ _ hGuard
  cases hPut
  exact .edited (get?_of_function hFunction)
    (.slot ((Table.contains_iff _ _).mp (condition_of_check hGuard)) row)

theorem load_changes {slot : SlotRef} {value : Operand} (h : load slot builder = some (value, after)) :
    builder.assembly.Changes ledger after.assembly (ledger.record builder after (.value value)) := by
  obtain ⟨f, first, hFunction, hRow⟩ := bind_eq_some_iff.mp h
  obtain rfl := function_asks _ _ _ _ hFunction
  obtain ⟨row, second, hLift, hLoad⟩ := bind_eq_some_iff.mp hRow
  obtain rfl := Asks.lift _ _ _ _ hLift
  exact emitResult_changes hLoad (fun _ => rfl) fun _ _ => rfl

/-- A callee is there when the call is made. -/
theorem call_changes {callee : FunctionId} {arguments : List Operand} {value : Option Operand}
    (h : call callee arguments builder = some (value, after)) :
    builder.assembly.Changes ledger after.assembly
      (ledger.record builder after (.ofResult value)) := by
  obtain ⟨signature, first, hSignature, hCall⟩ := bind_eq_some_iff.mp h
  obtain ⟨f, second, hFunction, hPure⟩ := bind_eq_some_iff.mp hSignature
  obtain rfl := function_asks _ _ _ _ hFunction
  cases hPure
  have hKnown : ∀ destination target, (Instruction.call callee arguments destination).calls target = true →
      first.assembly.Has target := by
    intro destination target hCalls
    rw [Instruction.calls, decide_eq_true_iff] at hCalls
    exact ⟨f, hCalls ▸ get?_of_function hFunction⟩
  rw [Draft.call] at hCall
  split at hCall
  · exact add_changes hCall (fun _ => (Function.add_eq_append _ _ rfl).symm) (fun _ => rfl) rfl rfl
      (fun _ hTarget => by cases hTarget) (hKnown none)
  · exact result_changes hCall (fun _ => rfl) (fun _ => rfl) (fun _ => rfl) fun id => hKnown (some id)

theorem jump_changes {target : BlockRef} {value : Unit} (h : jump target builder = some (value, after)) :
    builder.assembly.Changes ledger after.assembly (ledger.record builder after .nothing) := by
  obtain ⟨block, between, hTarget, hJump⟩ := bind_eq_some_iff.mp h
  obtain rfl := targetBlock_asks _ _ _ _ hTarget
  apply @add_changes _ _ _ ledger _ _ (fun _ => .nothing) hJump (.jump block) (fun _ => rfl) (fun _ => rfl)
    rfl rfl
  · intro other hOther
    rw [List.mem_singleton.mp hOther]
    exact targetBlock_inv hTarget
  · intro callee hCalls
    cases hCalls

theorem branch_changes {condition : Operand} {positive negative : BlockRef} {value : Unit}
    (h : branch condition positive negative builder = some (value, after)) :
    builder.assembly.Changes ledger after.assembly (ledger.record builder after .nothing) := by
  obtain ⟨first, between, hFirst, hRest⟩ := bind_eq_some_iff.mp h
  obtain rfl := targetBlock_asks _ _ _ _ hFirst
  obtain ⟨second, between, hSecond, hBranch⟩ := bind_eq_some_iff.mp hRest
  obtain rfl := targetBlock_asks _ _ _ _ hSecond
  apply @add_changes _ _ _ ledger _ _ (fun _ => .nothing) hBranch (.branch condition first second)
    (fun _ => rfl) (fun _ => rfl) rfl rfl
  · intro other hOther
    rcases List.mem_cons.mp hOther with rfl | hOther
    · exact targetBlock_inv hFirst
    · rw [List.mem_singleton.mp hOther]
      exact targetBlock_inv hSecond
  · intro callee hCalls
    cases hCalls

theorem phi_changes {ty : Ty} {incoming : List (Operand × BlockRef)} {value : Operand}
    (h : phi ty incoming builder = some (value, after)) :
    builder.assembly.Changes ledger after.assembly (ledger.record builder after (.value value)) := by
  obtain ⟨sources, between, hSources, hPhi⟩ := bind_eq_some_iff.mp h
  have hAsks : ∀ entry : Operand × BlockRef, Asks (do return (← localBlock entry.2, entry.1)) :=
    fun entry => (localBlock_asks entry.2).bind fun _ => .pure _
  obtain rfl := Asks.mapM hAsks _ _ _ _ hSources
  exact emitResult_changes hPhi (fun _ => rfl) fun _ _ => rfl

end Builder

/-- The step lemma: whatever the operation, it makes one of the changes. -/
theorem Operation.changes {operation : Operation} {builder after : Builder} {outcome : Outcome}
    (h : operation.run builder = some (outcome, after)) (ledger : Ledger) :
    builder.assembly.Changes ledger after.assembly (ledger.record builder after outcome) := by
  cases operation with
  | declare name shape linkage =>
    obtain ⟨value, hRun, rfl⟩ := map_eq_some_iff.mp h
    cases hRun
    have hGet := (builder.assembly.get?_declare name shape linkage builder.assembly.next).trans (if_pos rfl)
    rw [Ledger.record]
    change builder.assembly.Changes ledger (builder.assembly.declare name shape linkage)
      (ledger.bare builder.assembly.next ((builder.assembly.declare name shape linkage).get? _))
    rw [hGet]
    exact .declared name shape linkage
  | lookup name => exact Builder.asking_changes (Asks.get.bind fun _ => .pure _) h
  | signature id => exact Builder.asking_changes ((Builder.function_asks id).bind fun _ => .pure _) h
  | hasBody id => exact Builder.asking_changes ((Builder.function_asks id).bind fun _ => .pure _) h
  | isReferenced id => exact Builder.asking_changes (Asks.get.bind fun _ => .pure _) h
  | discard id =>
    obtain ⟨value, hRun, rfl⟩ := map_eq_some_iff.mp h
    exact Builder.discard_changes hRun
  | parameter id index =>
    exact Builder.asking_changes ((Builder.function_asks id).bind fun _ => (Asks.lift _).bind fun _ => .pure _) h
  | createBlock id label =>
    obtain ⟨value, hRun, rfl⟩ := map_eq_some_iff.mp h
    exact Builder.createBlock_changes hRun
  | entryBlock id => exact Builder.asking_changes ((Builder.function_asks id).bind fun _ => .pure _) h
  | setInsertionPoint place =>
    obtain ⟨value, hRun, rfl⟩ := map_eq_some_iff.mp h
    cases hRun
    exact .idle
  | insertionBlock => exact Builder.asking_changes Builder.insertionBlock_asks h
  | valueType value =>
    exact Builder.asking_changes (Builder.insertionBlock_asks.bind fun _ =>
      (Builder.function_asks _).bind fun _ => .lift _) h
  | alloca place slot =>
    obtain ⟨value, hRun, rfl⟩ := map_eq_some_iff.mp h
    exact Builder.alloca_changes hRun
  | arith op lhs rhs =>
    obtain ⟨value, hRun, rfl⟩ := map_eq_some_iff.mp h
    exact Builder.emitResult_changes hRun (fun _ => rfl) fun _ _ => rfl
  | compare predicate lhs rhs =>
    obtain ⟨value, hRun, rfl⟩ := map_eq_some_iff.mp h
    exact Builder.emitResult_changes hRun (fun _ => rfl) fun _ _ => rfl
  | extend operand ty =>
    obtain ⟨value, hRun, rfl⟩ := map_eq_some_iff.mp h
    exact Builder.emitResult_changes hRun (fun _ => rfl) fun _ _ => rfl
  | load slot =>
    obtain ⟨value, hRun, rfl⟩ := map_eq_some_iff.mp h
    exact Builder.load_changes hRun
  | store slot operand =>
    obtain ⟨value, hRun, rfl⟩ := map_eq_some_iff.mp h
    exact Builder.emit_changes hRun rfl rfl rfl fun _ => rfl
  | call callee arguments =>
    obtain ⟨value, hRun, rfl⟩ := map_eq_some_iff.mp h
    exact Builder.call_changes hRun
  | jump target =>
    obtain ⟨value, hRun, rfl⟩ := map_eq_some_iff.mp h
    exact Builder.jump_changes hRun
  | branch condition positive negative =>
    obtain ⟨value, hRun, rfl⟩ := map_eq_some_iff.mp h
    exact Builder.branch_changes hRun
  | phi ty incoming =>
    obtain ⟨value, hRun, rfl⟩ := map_eq_some_iff.mp h
    exact Builder.phi_changes hRun
  | ret operand =>
    obtain ⟨value, hRun, rfl⟩ := map_eq_some_iff.mp h
    exact Builder.emit_changes hRun rfl rfl rfl fun _ => rfl

/-- The run lemma: what holds of a new module and is kept by every change holds after every history. -/
theorem Builder.after?_invariant (invariant : Assembly → Ledger → Prop) {module : String}
    (hNew : invariant (.new module) fun _ => none)
    (hStep : ∀ assembly ledger assembly' ledger', invariant assembly ledger →
      assembly.Changes ledger assembly' ledger' → invariant assembly' ledger')
    {history : List Operation} {builder : Builder} {ledger : Ledger}
    (h : Builder.after? module history = some (builder, ledger)) : invariant builder.assembly ledger := by
  suffices hRun : ∀ (history : List Operation) (start : Builder) (kept : Ledger),
      invariant start.assembly kept → Operation.runAll history (start, kept) = some (builder, ledger) →
        invariant builder.assembly ledger from hRun history _ _ hNew h
  intro history
  induction history with
  | nil =>
    intro start kept hStart hRun
    cases hRun
    exact hStart
  | cons first rest ih =>
    intro start kept hStart hRun
    obtain ⟨⟨outcome, after⟩, hFirst, hRest⟩ := Option.bind_eq_some_iff.mp hRun
    exact ih _ _ (hStep _ _ _ _ hStart (first.changes hFirst kept)) hRest

end Slate
