import Mathlib
import Slate.Proofs.Building.Operations

/-! # Rows and their ids

After every history of a builder ids are positions: the ids given out for the rows of a function since its
body was last discarded are 0, 1, 2, …, each once and in order. The parameters are the first registers. Every other
register is written by one instruction, every slot is reserved by one, and in each block the reservations
stand in front, in the order of their slots.
-/

namespace Slate
set_option autoImplicit false

theorem Table.nodup_ids {kind : IdKind} {α : Type} (table : Table kind α) : table.ids.Nodup := by
  apply List.Nodup.map _ List.nodup_range
  intro i j h
  cases h
  rfl

namespace Function

/-- How many instructions write a register. -/
def writers (f : Function) (register : RegisterId) : Nat :=
  f.code.countP fun instruction => instruction.destination? = some register

/-- How many instructions reserve a slot. -/
def reservations (f : Function) (slot : SlotId) : Nat := f.code.count (.alloca slot)

/-- The reservations stand in front, in the order of their slots. -/
def Leading (code : List Instruction) : Prop :=
  ∃ (slots : List SlotId) (rest : List Instruction), code = slots.map Instruction.alloca ++ rest ∧
    slots.Pairwise (fun a b => a.index < b.index) ∧ ∀ instruction ∈ rest, instruction.isAlloca = false

/-- Each id that was given out is the position of its row. -/
structure Regular (f : Function) (issued : Issued) : Prop where
  registerIds : issued.registers = f.registers.ids
  slotIds : issued.slots = f.slots.ids
  blockIds : issued.blocks = f.blocks.ids
  parameters : f.parameters = (List.range f.signature.parameters.length).map Id.mk
  parameterTypes : (Table.ofList f.signature.parameters).Grows f.registers
  written : ∀ register, f.writers register =
    if register ∈ f.registers.ids ∧ register ∉ f.parameters then 1 else 0
  reserved : ∀ slot, f.reservations slot = if slot ∈ f.slots.ids then 1 else 0
  leading : ∀ block ∈ f.blocks.toList, Leading block.code

/-! ## Edits as insertions into the code -/

theorem map_code_eq (f : Function) : f.blocks.toList.map Block.code = f.blocks.ids.map f.codeAt := by
  apply List.ext_getElem?
  intro i
  have hRow : f.blocks.toList[i]? = f.blocks.get? ⟨i⟩ := Array.getElem?_toList
  rw [Table.ids, List.map_map, List.getElem?_map, List.getElem?_map, hRow]
  cases hBlock : f.blocks.get? ⟨i⟩ with
  | none =>
    have hSize := (f.blocks.get?_eq_none_iff ⟨i⟩).mp hBlock
    rw [List.getElem?_eq_none (by simpa using hSize)]
    rfl
  | some block =>
    rw [List.getElem?_range (Table.lt_of_get? hBlock)]
    exact congrArg some (f.codeAt_of_get? hBlock).symm

theorem code_eq_flatMap (f : Function) : f.code = f.blocks.ids.flatMap f.codeAt := by
  rw [code, List.flatMap_def, List.flatMap_def, map_code_eq]

theorem mem_code_of_mem_codeAt {f : Function} {id : BlockId} {instruction : Instruction}
    (h : instruction ∈ f.codeAt id) : instruction ∈ f.code := by
  rw [code_eq_flatMap, List.mem_flatMap]
  refine ⟨id, (f.blocks.mem_ids_iff id).mpr ?_, h⟩
  by_contra hSize
  rw [codeAt_of_size_le f (Nat.le_of_not_lt hSize)] at h
  cases h

theorem leading_codeAt {f : Function} {issued : Issued} (h : f.Regular issued) (id : BlockId) :
    Leading (f.codeAt id) := by
  cases hBlock : f.blocks.get? id with
  | none =>
    rw [f.codeAt_of_size_le ((f.blocks.get?_eq_none_iff id).mp hBlock)]
    exact ⟨[], [], rfl, .nil, by simp⟩
  | some block =>
    rw [f.codeAt_of_get? hBlock]
    exact h.leading block ((f.blocks.mem_toList_iff block).mpr ⟨id, hBlock⟩)

theorem leading_of_codeAt {f : Function} (h : ∀ id, Leading (f.codeAt id)) :
    ∀ block ∈ f.blocks.toList, Leading block.code := by
  intro block hMem
  obtain ⟨id, hBlock⟩ := (f.blocks.mem_toList_iff block).mp hMem
  rw [← f.codeAt_of_get? hBlock]
  exact h id

/-- Where one part of a list gains an element, so does the whole. -/
theorem flatMap_perm_cons {α β : Type} {list : List α} {a : α} {b : β} {parts parts' : α → List β}
    (hNodup : list.Nodup) (hMem : a ∈ list) (hSame : ∀ other, other ≠ a → parts' other = parts other)
    (hPart : (parts' a).Perm (b :: parts a)) :
    (list.flatMap parts').Perm (b :: list.flatMap parts) := by
  induction list with
  | nil => cases hMem
  | cons first rest ih =>
    rw [List.nodup_cons] at hNodup
    rw [List.flatMap_cons, List.flatMap_cons]
    rcases List.mem_cons.mp hMem with rfl | hRest
    · have hTail : rest.flatMap parts' = rest.flatMap parts := by
        apply List.flatMap_congr
        rintro other hOther
        apply hSame
        rintro rfl
        exact hNodup.1 hOther
      rw [hTail]
      exact hPart.append_right _
    · have hFirst : first ≠ a := by
        rintro rfl
        exact hNodup.1 hRest
      rw [hSame first hFirst]
      exact ((ih hNodup.2 hRest).append_left _).trans List.perm_middle

section Insertions

variable {f f' : Function} {at_ : BlockId} {instruction : Instruction}

theorem code_perm_cons (hAt : at_.index < f.blocks.size) (hSize : f'.blocks.size = f.blocks.size)
    (hSame : ∀ id, id ≠ at_ → f'.codeAt id = f.codeAt id)
    (hPart : (f'.codeAt at_).Perm (instruction :: f.codeAt at_)) :
    f'.code.Perm (instruction :: f.code) := by
  have hIds : f'.blocks.ids = f.blocks.ids := by rw [Table.ids, Table.ids, hSize]
  rw [code_eq_flatMap, code_eq_flatMap, hIds]
  exact flatMap_perm_cons f.blocks.nodup_ids ((f.blocks.mem_ids_iff at_).mpr hAt) hSame hPart

theorem code_add_perm (hAt : at_.index < f.blocks.size) :
    (f.add at_ instruction).code.Perm (instruction :: f.code) := by
  apply code_perm_cons hAt (f.size_add at_ instruction)
  · intro id hId
    rw [codeAt_add f hAt, if_neg hId]
  · rw [codeAt_add f hAt, if_pos rfl]
    exact List.perm_append_singleton _ _

theorem addAlloca_perm (slot : SlotId) (code : List Instruction) :
    (addAlloca slot code).Perm (.alloca slot :: code) := by
  refine List.perm_middle.trans (List.Perm.cons _ ?_)
  rw [List.takeWhile_append_dropWhile]

theorem code_newSlot_perm (hAt : at_.index < f.blocks.size) (row : Slot) :
    (f.newSlot at_ row).code.Perm (.alloca f.slots.nextId :: f.code) := by
  apply code_perm_cons hAt (f.blocks.size_modify at_ _)
  · intro id hId
    rw [codeAt_newSlot f hAt, if_neg hId]
  · rw [codeAt_newSlot f hAt, if_pos rfl]
    exact addAlloca_perm _ _

theorem code_newBlock (f : Function) (label : String) : (f.newBlock label).code = f.code := by
  have hIds : (f.newBlock label).blocks.ids = f.blocks.ids ++ [f.blocks.nextId] := Table.ids_push _ _
  have hSame : (f.newBlock label).codeAt = f.codeAt := funext (f.codeAt_newBlock label)
  have hNew : f.codeAt f.blocks.nextId = [] := f.codeAt_of_size_le (Nat.le_refl _)
  rw [code_eq_flatMap, hIds, hSame, List.flatMap_append, ← code_eq_flatMap, List.flatMap_singleton, hNew,
    List.append_nil]

end Insertions

/-! ## Leading reservations -/

theorem isAlloca_of_destination? {instruction : Instruction} {register : RegisterId}
    (h : instruction.destination? = some register) : instruction.isAlloca = false := by
  cases instruction with
  | alloca slot => cases h
  | _ => rfl

theorem Leading.append {code : List Instruction} (h : Leading code) {instruction : Instruction}
    (hAlloca : instruction.isAlloca = false) : Leading (code ++ [instruction]) := by
  obtain ⟨slots, rest, rfl, hOrder, hRest⟩ := h
  refine ⟨slots, rest ++ [instruction], List.append_assoc _ _ _, hOrder, ?_⟩
  intro other hOther
  rcases List.mem_append.mp hOther with hOther | hOther
  · exact hRest other hOther
  · rw [List.mem_singleton.mp hOther]
    exact hAlloca

theorem Leading.addAlloca {code : List Instruction} (h : Leading code) {slot : SlotId}
    (hSlot : ∀ other, Instruction.alloca other ∈ code → other.index < slot.index) :
    Leading (addAlloca slot code) := by
  obtain ⟨slots, rest, rfl, hOrder, hRest⟩ := h
  refine ⟨slots ++ [slot], rest, Function.addAlloca_prologue slots slot hRest, ?_, hRest⟩
  rw [List.pairwise_append]
  refine ⟨hOrder, List.pairwise_singleton _ _, ?_⟩
  intro other hOther last hLast
  rw [List.mem_singleton.mp hLast]
  exact hSlot other (List.mem_append_left _ (List.mem_map.mpr ⟨other, hOther, rfl⟩))

section Add

variable {f : Function} {at_ : BlockId} (hAt : at_.index < f.blocks.size) {instruction : Instruction}
include hAt

theorem leading_add (h : ∀ id, Leading (f.codeAt id)) (hAlloca : instruction.isAlloca = false) (id : BlockId) :
    Leading ((f.add at_ instruction).codeAt id) := by
  rw [codeAt_add f hAt]
  split
  · exact (h id).append hAlloca
  · exact h id

theorem reservations_add (hAlloca : instruction.isAlloca = false) (slot : SlotId) :
    (f.add at_ instruction).reservations slot = f.reservations slot := by
  have hNe : instruction ≠ .alloca slot := by
    rintro rfl
    cases hAlloca
  rw [reservations, (code_add_perm hAt).count_eq, List.count_cons_of_ne hNe, reservations]

theorem writers_add (register : RegisterId) : (f.add at_ instruction).writers register =
    f.writers register + if instruction.destination? = some register then 1 else 0 := by
  rw [writers, (code_add_perm hAt).countP_eq, List.countP_cons, writers]
  simp

end Add

/-! ## What one edit keeps -/

namespace Regular

variable {f f' : Function} {issued : Issued} (h : f.Regular issued)
include h

theorem mem_parameters_iff (register : RegisterId) :
    register ∈ f.parameters ↔ register.index < f.signature.parameters.length := by
  rw [h.parameters]
  exact (Table.ofList f.signature.parameters).mem_ids_iff register

/-- The next register is not a parameter. -/
theorem nextId_not_mem_parameters : f.registers.nextId ∉ f.parameters := by
  intro hMem
  have hSize : f.signature.parameters.length ≤ f.registers.size := h.parameterTypes.size_le
  have hIndex := (h.mem_parameters_iff _).mp hMem
  rw [Table.index_nextId] at hIndex
  omega

theorem slot_lt {slot : SlotId} (hMem : Instruction.alloca slot ∈ f.code) :
    slot.index < f.slots.size := by
  have hCount : 0 < f.reservations slot := List.count_pos_iff.mpr hMem
  rw [h.reserved] at hCount
  by_contra hSlot
  rw [if_neg (hSlot ∘ (f.slots.mem_ids_iff slot).mp)] at hCount
  cases hCount

theorem newBlock (label : String) :
    (f.newBlock label).Regular { issued with blocks := issued.blocks ++ [f.blocks.nextId] } where
  registerIds := h.registerIds
  slotIds := h.slotIds
  blockIds := by
    change issued.blocks ++ [f.blocks.nextId] = (f.blocks.push _).ids
    rw [Table.ids_push, h.blockIds]
  parameters := h.parameters
  parameterTypes := h.parameterTypes
  written register := by
    rw [writers, code_newBlock]
    exact h.written register
  reserved slot := by
    rw [reservations, code_newBlock]
    exact h.reserved slot
  leading := by
    apply leading_of_codeAt
    intro id
    rw [codeAt_newBlock]
    exact leading_codeAt h id

theorem newSlot {at_ : BlockId} (hAt : at_.index < f.blocks.size) (row : Slot) :
    (f.newSlot at_ row).Regular { issued with slots := issued.slots ++ [f.slots.nextId] } where
  registerIds := h.registerIds
  slotIds := by
    change issued.slots ++ [f.slots.nextId] = (f.slots.push row).ids
    rw [Table.ids_push, h.slotIds]
  blockIds := by
    change issued.blocks = (f.blocks.modify at_ _).ids
    rw [Table.ids, Table.size_modify, h.blockIds, Table.ids]
  parameters := h.parameters
  parameterTypes := h.parameterTypes
  written register := by
    rw [writers, (code_newSlot_perm hAt row).countP_eq, List.countP_cons_of_neg (by simp [Instruction.destination?])]
    exact h.written register
  reserved slot := by
    have hOld := h.reserved slot
    have hIds : (f.newSlot at_ row).slots.ids = f.slots.ids ++ [f.slots.nextId] := Table.ids_push _ _
    rw [reservations, (code_newSlot_perm hAt row).count_eq, hIds]
    rw [reservations] at hOld
    by_cases hSlot : slot = f.slots.nextId
    · subst hSlot
      rw [List.count_cons_self, hOld, if_neg (by simp [Table.mem_ids_iff]), if_pos (by simp)]
    · rw [List.count_cons_of_ne (by simpa using Ne.symm hSlot), hOld]
      simp [hSlot]
  leading := by
    apply leading_of_codeAt
    intro id
    rw [codeAt_newSlot f hAt]
    split
    · apply (leading_codeAt h id).addAlloca
      intro other hOther
      exact h.slot_lt (mem_code_of_mem_codeAt hOther)
    · exact leading_codeAt h id

theorem plain {at_ : BlockId} (hAt : at_.index < f.blocks.size) {instruction : Instruction}
    (hDestination : instruction.destination? = none) (hAlloca : instruction.isAlloca = false) :
    (f.add at_ instruction).Regular issued where
  registerIds := by rw [registers_add, h.registerIds]
  slotIds := by rw [slots_add, h.slotIds]
  blockIds := by rw [Table.ids, size_add, h.blockIds, Table.ids]
  parameters := by rw [parameters_add, signature_add, h.parameters]
  parameterTypes := by
    rw [signature_add, registers_add]
    exact h.parameterTypes
  written register := by
    rw [writers_add hAt, hDestination, registers_add, parameters_add]
    exact h.written register
  reserved slot := by
    rw [slots_add, reservations_add hAt hAlloca]
    exact h.reserved slot
  leading := leading_of_codeAt (leading_add hAt (leading_codeAt h) hAlloca)

theorem result {at_ : BlockId} {ty : Ty} (hAt : at_.index < (f.newRegister ty).blocks.size)
    {instruction : Instruction} (hDestination : instruction.destination? = some f.registers.nextId) :
    ((f.newRegister ty).add at_ instruction).Regular
      { issued with registers := issued.registers ++ [f.registers.nextId] } where
  registerIds := by
    rw [registers_add]
    change issued.registers ++ [f.registers.nextId] = (f.registers.push ty).ids
    rw [Table.ids_push, h.registerIds]
  slotIds := by
    rw [slots_add]
    exact h.slotIds
  blockIds := by
    rw [Table.ids, size_add]
    exact h.blockIds
  parameters := by
    rw [parameters_add, signature_add]
    exact h.parameters
  parameterTypes := by
    rw [signature_add, registers_add]
    exact h.parameterTypes.trans (Table.grows_push _ _)
  written register := by
    have hOld : (f.newRegister ty).writers register = _ := h.written register
    have hIds : (f.newRegister ty).registers.ids = f.registers.ids ++ [f.registers.nextId] :=
      Table.ids_push _ _
    have hNew : f.registers.nextId ∉ f.registers.ids := by simp [Table.mem_ids_iff]
    have hParameters : (f.newRegister ty).parameters = f.parameters := rfl
    rw [writers_add hAt, hOld, hDestination, registers_add, parameters_add, hIds, hParameters]
    by_cases hRegister : register = f.registers.nextId
    · subst hRegister
      simp [hNew, h.nextId_not_mem_parameters]
    · simp [hRegister, Ne.symm hRegister]
  reserved slot := by
    rw [slots_add, reservations_add hAt (isAlloca_of_destination? hDestination)]
    exact h.reserved slot
  leading := by
    have hOld : ∀ id, Leading (f.codeAt id) := leading_codeAt h
    exact leading_of_codeAt (leading_add hAt hOld (isAlloca_of_destination? hDestination))

/-- The step lemma. -/
theorem edit {known : FunctionId → Prop} {change : Issued → Issued} (hEdits : f.Edits known change f') :
    f'.Regular (change issued) := by
  cases hEdits with
  | block label => exact h.newBlock label
  | slot inside row => exact h.newSlot inside row
  | plain inside destination alloca => exact h.plain inside destination alloca
  | result inside _ destination => exact h.result inside destination

/-- Nothing is left of a discarded body. -/
theorem withoutBody_eq : f.withoutBody = .bare f.name f.signature f.linkage := by
  have hLength : f.parameters.length = (Table.ofList f.signature.parameters : Table .register Ty).size := by
    simp [h.parameters, Table.ofList, Table.size]
  rw [withoutBody, hLength, h.parameterTypes.truncate, h.parameters]
  rfl

end Regular

theorem regular_bare (name : String) (signature : Signature) (linkage : Linkage) :
    (bare name signature linkage).Regular { registers := (bare name signature linkage).parameters } where
  registerIds := rfl
  slotIds := rfl
  blockIds := rfl
  parameters := rfl
  parameterTypes := .refl _
  written register := by
    have hParameters : (bare name signature linkage).parameters =
        (bare name signature linkage).registers.ids := rfl
    rw [hParameters, if_neg (by simp)]
    rfl
  reserved slot := rfl
  leading := by
    intro block hMem
    cases hMem

end Function

/-! ## What a history keeps -/

/-- Functions are found under the ids that were given out for them, and are regular. -/
structure Assembly.Regular (assembly : Assembly) (ledger : Ledger) : Prop where
  sorted : assembly.module.functions.Sorted
  given : ∀ id f, assembly.get? id = some f → id.index < assembly.next.index
  functions : ∀ id f, assembly.get? id = some f → ∃ issued, ledger id = some issued ∧ f.Regular issued
  absent : ∀ id, assembly.get? id = none → ledger id = none

namespace Assembly.Regular

variable {assembly : Assembly} {ledger : Ledger} (h : assembly.Regular ledger)
include h

theorem declare (name : String) (signature : Signature) (linkage : Linkage) :
    (assembly.declare name signature linkage).Regular
      (ledger.bare assembly.next (some (.bare name signature linkage))) where
  sorted := h.sorted.insert _ _
  given id f hFound := by
    rw [get?_declare] at hFound
    change id.index < assembly.next.index + 1
    split at hFound
    · subst id
      exact Nat.lt_succ_self _
    · exact Nat.lt_succ_of_lt (h.given id f hFound)
  functions id f hFound := by
    rw [get?_declare] at hFound
    rw [Ledger.bare]
    split at hFound
    · subst id
      cases hFound
      exact ⟨_, Function.update_self _ _ _, Function.regular_bare name signature linkage⟩
    · rename_i hNew
      rw [Function.update_of_ne hNew]
      exact h.functions id f hFound
  absent id hNone := by
    rw [get?_declare] at hNone
    rw [Ledger.bare]
    split at hNone
    · cases hNone
    · rename_i hNew
      rw [Function.update_of_ne hNew]
      exact h.absent id hNone

theorem discard {id : FunctionId} {f : Function} (hFound : assembly.get? id = some f) :
    (assembly.discard id f).Regular (ledger.bare id ((assembly.discard id f).get? id)) where
  sorted := by
    rw [Assembly.discard]
    split
    · exact h.sorted.insert _ _
    · exact (h.sorted.insert _ _).erase _
  given key g hKey := by
    have hNext : (assembly.discard id f).next = assembly.next := by
      rw [Assembly.discard]
      split <;> rfl
    rw [hNext]
    rw [get?_discard] at hKey
    split at hKey
    · subst key
      exact h.given id f hFound
    · exact h.given key g hKey
  functions key g hKey := by
    rw [Ledger.bare]
    by_cases hId : key = id
    · subst hId
      obtain ⟨issued, -, hRegular⟩ := h.functions key f hFound
      rw [Function.update_self, hKey]
      rw [get?_discard, if_pos rfl, hRegular.withoutBody_eq] at hKey
      split at hKey
      · cases hKey
        exact ⟨_, rfl, Function.regular_bare f.name f.signature f.linkage⟩
      · cases hKey
    · rw [Function.update_of_ne hId]
      rw [get?_discard, if_neg hId] at hKey
      exact h.functions key g hKey
  absent key hNone := by
    rw [Ledger.bare]
    by_cases hId : key = id
    · subst hId
      rw [Function.update_self, hNone]
      rfl
    · rw [Function.update_of_ne hId]
      rw [get?_discard, if_neg hId] at hNone
      exact h.absent key hNone

theorem put {id : FunctionId} {f f' : Function} {change : Issued → Issued}
    (hFound : assembly.get? id = some f) (hRegular : ∀ issued, f.Regular issued → f'.Regular (change issued)) :
    (assembly.put id f').Regular (ledger.edit id change) where
  sorted := h.sorted.insert _ _
  given key g hKey := by
    rw [get?_put] at hKey
    split at hKey
    · subst key
      exact h.given id f hFound
    · exact h.given key g hKey
  functions key g hKey := by
    rw [get?_put] at hKey
    rw [Ledger.edit]
    split at hKey
    · subst key
      cases hKey
      obtain ⟨issued, hIssued, hOld⟩ := h.functions id f hFound
      rw [Function.update_self, hIssued]
      exact ⟨change issued, rfl, hRegular issued hOld⟩
    · rename_i hId
      rw [Function.update_of_ne hId]
      exact h.functions key g hKey
  absent key hNone := by
    rw [get?_put] at hNone
    rw [Ledger.edit]
    split at hNone
    · cases hNone
    · rename_i hId
      rw [Function.update_of_ne hId]
      exact h.absent key hNone

theorem changes {assembly' : Assembly} {ledger' : Ledger} (hChanges : assembly.Changes ledger assembly' ledger') :
    assembly'.Regular ledger' := by
  cases hChanges with
  | idle => exact h
  | declared name signature linkage => exact h.declare name signature linkage
  | discarded found => exact h.discard found
  | edited found edits => exact h.put found fun _ hOld => hOld.edit edits

end Assembly.Regular

theorem Assembly.regular_new (module : String) : (Assembly.new module).Regular fun _ => none where
  sorted := IdMap.sorted_empty
  given id f hFound := by cases hFound
  functions id f hFound := by cases hFound
  absent _ _ := rfl

/-- After every history, with whatever handles, each function is found under the id that was given out for it
and is regular: the ids given out for its rows are their positions, its parameters are its first registers,
every other register has one writer, every slot one reservation, and reservations lead their blocks in the
order of their slots. -/
theorem Builder.regular_of_history (module : String) (history : List Operation) (builder : Builder)
    (ledger : Ledger) (h : Builder.after? module history = some (builder, ledger)) :
    builder.assembly.Regular ledger :=
  Builder.after?_invariant Assembly.Regular (Assembly.regular_new module)
    (fun _ _ _ _ hOld hChanges => hOld.changes hChanges) h

/-- A caller, and a function whose first body is discarded while it is called; the handles of that body are
used again for the second one. -/
def Operation.rebuilt : List Operation := [
  .declare "f" (.ofArity 1) .internal, .declare "g" (.ofArity 0) .internal,
  .createBlock ⟨0⟩ "entry", .alloca ⟨⟨0⟩, ⟨0⟩⟩ { ty := .i32, name := "x" }, .setInsertionPoint ⟨⟨0⟩, ⟨0⟩⟩,
  .load ⟨⟨0⟩, ⟨0⟩⟩, .createBlock ⟨1⟩ "entry", .setInsertionPoint ⟨⟨1⟩, ⟨0⟩⟩,
  .call ⟨0⟩ [.const (.int 1)], .discard ⟨0⟩, .createBlock ⟨0⟩ "again", .setInsertionPoint ⟨⟨0⟩, ⟨0⟩⟩,
  .alloca ⟨⟨0⟩, ⟨0⟩⟩ { ty := .i32, name := "y" }, .load ⟨⟨0⟩, ⟨0⟩⟩, .alloca ⟨⟨0⟩, ⟨0⟩⟩ { ty := .i32, name := "z" },
  .ret (some (.register ⟨1⟩))]

theorem Builder.regular_rebuilt : ∃ builder ledger,
    Builder.after? "m" Operation.rebuilt = some (builder, ledger) ∧
      ledger ⟨0⟩ = some { registers := [⟨0⟩, ⟨1⟩], slots := [⟨0⟩, ⟨1⟩], blocks := [⟨0⟩] } ∧
      builder.assembly.Regular ledger := by
  have hSome : (Builder.after? "m" Operation.rebuilt).isSome = true := by decide
  obtain ⟨⟨builder, ledger⟩, hRun⟩ := Option.isSome_iff_exists.mp hSome
  have hLedger : (Builder.after? "m" Operation.rebuilt).map (fun state => state.2 ⟨0⟩) =
      some (some { registers := [⟨0⟩, ⟨1⟩], slots := [⟨0⟩, ⟨1⟩], blocks := [⟨0⟩] }) := by decide
  rw [hRun] at hLedger
  exact ⟨builder, ledger, hRun, Option.some.inj hLedger,
    Builder.regular_of_history "m" Operation.rebuilt builder ledger hRun⟩

end Slate
