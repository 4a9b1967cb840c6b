import Slate.Ir.Draft
import Slate.Proofs.WellFormed

/-! # Views of functions under construction

A function is seen through the bodies and predecessors of its blocks. A body is what stands behind the
leading `alloca`s, so new slots do not show, and a new block has the empty body it had before it was
made. `add` is the one operation that changes bodies: it puts an instruction at the end of a block and
records the edges that come with it.
-/

namespace Slate
set_option autoImplicit false

namespace Function

def codeAt (function : Function) (id : BlockId) : List Instruction :=
  ((function.blocks.get? id).map Block.code).getD []

def predecessorsAt (function : Function) (id : BlockId) : IdSet .block :=
  ((function.blocks.get? id).map Block.predecessors).getD .empty

/-- The code of a block behind its leading `alloca`s. -/
def bodyAt (function : Function) (id : BlockId) : List Instruction :=
  (function.codeAt id).dropWhile Instruction.isAlloca

/-- The blocks that the instructions of a body lead to. -/
def successorsAt (function : Function) (id : BlockId) : List BlockId :=
  (function.bodyAt id).flatMap Instruction.targets

/-- The registers that a body writes. -/
def definesAt (function : Function) (id : BlockId) : List RegisterId :=
  (function.bodyAt id).filterMap Instruction.destination?

/-- Adds an instruction at the end of a block, with the edges to its targets. -/
def add (function : Function) (id : BlockId) (instruction : Instruction) : Function :=
  (instruction.targets.foldl (fun f target => f.addEdge id target) function).append id instruction

variable (function : Function)

theorem mem_code_iff (instruction : Instruction) : instruction ∈ function.code ↔
    ∃ id block, function.blocks.get? id = some block ∧ instruction ∈ block.code := by
  rw [code, List.mem_flatMap]
  constructor
  · rintro ⟨block, hBlock, hMem⟩
    obtain ⟨id, hGet⟩ := (Table.mem_toList_iff _ _).mp hBlock
    exact ⟨id, block, hGet, hMem⟩
  · rintro ⟨id, block, hGet, hMem⟩
    exact ⟨block, (Table.mem_toList_iff _ _).mpr ⟨id, hGet⟩, hMem⟩

theorem codeAt_of_get? {id : BlockId} {block : Block} (h : function.blocks.get? id = some block) :
    function.codeAt id = block.code := by
  simp [codeAt, h]

theorem predecessorsAt_of_get? {id : BlockId} {block : Block}
    (h : function.blocks.get? id = some block) :
    function.predecessorsAt id = block.predecessors := by
  simp [predecessorsAt, h]

theorem codeAt_of_size_le {id : BlockId} (h : function.blocks.size ≤ id.index) :
    function.codeAt id = [] := by
  simp [codeAt, (Table.get?_eq_none_iff _ _).mpr h]

theorem bodyAt_of_size_le {id : BlockId} (h : function.blocks.size ≤ id.index) :
    function.bodyAt id = [] := by
  simp [bodyAt, function.codeAt_of_size_le h]

theorem predecessorsAt_of_size_le {id : BlockId} (h : function.blocks.size ≤ id.index) :
    function.predecessorsAt id = .empty := by
  simp [predecessorsAt, (Table.get?_eq_none_iff _ _).mpr h]

theorem lt_size_of_mem_bodyAt {id : BlockId} {instruction : Instruction}
    (h : instruction ∈ function.bodyAt id) : id.index < function.blocks.size := by
  by_contra hLarge
  rw [function.bodyAt_of_size_le (Nat.not_lt.mp hLarge)] at h
  cases h

theorem lt_size_of_mem_successorsAt {id target : BlockId}
    (h : target ∈ function.successorsAt id) : id.index < function.blocks.size := by
  obtain ⟨instruction, hMem, -⟩ := List.mem_flatMap.mp h
  exact function.lt_size_of_mem_bodyAt hMem

theorem codeAt_newBlock (label : String) (id : BlockId) :
    (function.newBlock label).codeAt id = function.codeAt id := by
  simp only [codeAt, newBlock, Table.get?_push]
  split
  · rename_i hNext
    rw [(Table.get?_eq_none_iff _ _).mpr (by simp [hNext])]
    rfl
  · rfl

theorem predecessorsAt_newBlock (label : String) (id : BlockId) :
    (function.newBlock label).predecessorsAt id = function.predecessorsAt id := by
  simp only [predecessorsAt, newBlock, Table.get?_push]
  split
  · rename_i hNext
    rw [(Table.get?_eq_none_iff _ _).mpr (by simp [hNext])]
    rfl
  · rfl

theorem bodyAt_newBlock (label : String) (id : BlockId) :
    (function.newBlock label).bodyAt id = function.bodyAt id := by
  rw [bodyAt, codeAt_newBlock, bodyAt]

theorem codeAt_newSlot {at_ : BlockId} (hAt : at_.index < function.blocks.size) (slot : Slot)
    (id : BlockId) : (function.newSlot at_ slot).codeAt id =
      if id = at_ then addAlloca function.slots.nextId (function.codeAt id)
      else function.codeAt id := by
  simp only [codeAt, newSlot, Table.get?_modify]
  split
  · rename_i hEq
    subst hEq
    obtain ⟨block, hBlock⟩ := Table.exists_of_lt hAt
    simp [hBlock]
  · rfl

theorem dropWhile_addAlloca (slot : SlotId) (code : List Instruction) :
    (addAlloca slot code).dropWhile Instruction.isAlloca = code.dropWhile Instruction.isAlloca := by
  induction code with
  | nil => rfl
  | cons first rest ih =>
    cases hFirst : first.isAlloca with
    | true => simpa [addAlloca, hFirst] using ih
    | false =>
      have hSlot : (Instruction.alloca slot).isAlloca = true := rfl
      simp [addAlloca, hFirst, hSlot]

theorem predecessorsAt_newSlot (at_ : BlockId) (slot : Slot) (id : BlockId) :
    (function.newSlot at_ slot).predecessorsAt id = function.predecessorsAt id := by
  simp only [predecessorsAt, newSlot, Table.get?_modify]
  split
  · cases function.blocks.get? id <;> rfl
  · rfl

theorem bodyAt_newSlot {at_ : BlockId} (hAt : at_.index < function.blocks.size) (slot : Slot)
    (id : BlockId) : (function.newSlot at_ slot).bodyAt id = function.bodyAt id := by
  rw [bodyAt, codeAt_newSlot function hAt, bodyAt]
  split
  · exact dropWhile_addAlloca _ _
  · rfl

theorem codeAt_append {at_ : BlockId} (hAt : at_.index < function.blocks.size)
    (instruction : Instruction) (id : BlockId) : (function.append at_ instruction).codeAt id =
      if id = at_ then function.codeAt id ++ [instruction] else function.codeAt id := by
  simp only [codeAt, append, Table.get?_modify]
  split
  · rename_i hEq
    subst hEq
    obtain ⟨block, hBlock⟩ := Table.exists_of_lt hAt
    simp [hBlock]
  · rfl

theorem predecessorsAt_append (at_ : BlockId) (instruction : Instruction) (id : BlockId) :
    (function.append at_ instruction).predecessorsAt id = function.predecessorsAt id := by
  simp only [predecessorsAt, append, Table.get?_modify]
  split
  · cases function.blocks.get? id <;> rfl
  · rfl

theorem codeAt_addEdge (source target id : BlockId) :
    (function.addEdge source target).codeAt id = function.codeAt id := by
  simp only [codeAt, addEdge, Table.get?_modify]
  split
  · cases function.blocks.get? id <;> rfl
  · rfl

theorem predecessorsAt_addEdge {target : BlockId} (hTarget : target.index < function.blocks.size)
    (source id : BlockId) : (function.addEdge source target).predecessorsAt id =
      if id = target then (function.predecessorsAt id).insert source
      else function.predecessorsAt id := by
  simp only [predecessorsAt, addEdge, Table.get?_modify]
  split
  · rename_i hEq
    subst hEq
    obtain ⟨block, hBlock⟩ := Table.exists_of_lt hTarget
    simp [hBlock]
  · rfl

section Edges

/-- The function with edges from one block to several. -/
def addEdges (source : BlockId) (targets : List BlockId) : Function :=
  targets.foldl (fun f target => f.addEdge source target) function

theorem addEdges_cons (source first : BlockId) (rest : List BlockId) :
    function.addEdges source (first :: rest) = (function.addEdge source first).addEdges source rest :=
  rfl

theorem size_addEdges (source : BlockId) (targets : List BlockId) :
    (function.addEdges source targets).blocks.size = function.blocks.size := by
  induction targets generalizing function with
  | nil => rfl
  | cons first rest ih =>
    rw [addEdges_cons, ih]
    exact Table.size_modify _ _ _

theorem codeAt_addEdges (source : BlockId) (targets : List BlockId) (id : BlockId) :
    (function.addEdges source targets).codeAt id = function.codeAt id := by
  induction targets generalizing function with
  | nil => rfl
  | cons first rest ih => rw [addEdges_cons, ih, codeAt_addEdge]

theorem addEdges_eq (source : BlockId) (targets : List BlockId) :
    function.addEdges source targets =
      { function with blocks := (function.addEdges source targets).blocks } := by
  induction targets generalizing function with
  | nil => rfl
  | cons first rest ih =>
    rw [addEdges_cons, ih]
    rfl

theorem mem_predecessorsAt_addEdges (source : BlockId) (targets : List BlockId)
    (hTargets : ∀ target ∈ targets, target.index < function.blocks.size) (id other : BlockId) :
    other ∈ ((function.addEdges source targets).predecessorsAt id).ids ↔
      other ∈ (function.predecessorsAt id).ids ∨ other = source ∧ id ∈ targets := by
  induction targets generalizing function with
  | nil => simp [addEdges]
  | cons first rest ih =>
    obtain ⟨hFirst, hRest⟩ := List.forall_mem_cons.mp hTargets
    rw [addEdges_cons, ih _ (fun target hTarget => by
      simpa [addEdge] using hRest target hTarget), predecessorsAt_addEdge _ hFirst, List.mem_cons]
    split
    · rename_i hEq
      rw [IdSet.mem_insert]
      constructor
      · rintro ((h | h) | ⟨h, -⟩)
        · exact .inr ⟨h, .inl hEq⟩
        · exact .inl h
        · exact .inr ⟨h, .inl hEq⟩
      · rintro (h | ⟨h, -⟩)
        · exact .inl (.inr h)
        · exact .inl (.inl h)
    · rename_i hNe
      simp [hNe]

theorem predecessorsAt_addEdges_of_not_mem (source : BlockId) (targets : List BlockId) {id : BlockId}
    (h : id ∉ targets) :
    (function.addEdges source targets).predecessorsAt id = function.predecessorsAt id := by
  induction targets generalizing function with
  | nil => rfl
  | cons first rest ih =>
    obtain ⟨hFirst, hRest⟩ := not_or.mp (mt List.mem_cons.mpr h)
    rw [addEdges_cons, ih _ hRest]
    simp only [predecessorsAt, addEdge, Table.get?_modify, if_neg hFirst]

theorem sorted_predecessorsAt_addEdges (source : BlockId) (targets : List BlockId)
    (hTargets : ∀ target ∈ targets, target.index < function.blocks.size) (id : BlockId)
    (h : (function.predecessorsAt id).Sorted) :
    ((function.addEdges source targets).predecessorsAt id).Sorted := by
  induction targets generalizing function with
  | nil => exact h
  | cons first rest ih =>
    obtain ⟨hFirst, hRest⟩ := List.forall_mem_cons.mp hTargets
    rw [addEdges_cons]
    refine ih _ (fun target hTarget => by simpa [addEdge] using hRest target hTarget) ?_
    rw [predecessorsAt_addEdge _ hFirst]
    split
    · exact h.insert source
    · exact h

end Edges

theorem dropWhile_append_instruction (code : List Instruction) {instruction : Instruction}
    (h : instruction.isAlloca = false) : (code ++ [instruction]).dropWhile Instruction.isAlloca =
      code.dropWhile Instruction.isAlloca ++ [instruction] := by
  rw [List.dropWhile_append]
  split
  · rename_i hEmpty
    rw [List.isEmpty_iff.mp hEmpty]
    simp [h]
  · rfl

section Add

variable {at_ : BlockId} (hAt : at_.index < function.blocks.size) {instruction : Instruction}

theorem add_eq_append (at_ : BlockId) (h : instruction.targets = []) :
    function.add at_ instruction = function.append at_ instruction := by
  rw [add, h]
  rfl

@[simp] theorem size_add (at_ : BlockId) (instruction : Instruction) :
    (function.add at_ instruction).blocks.size = function.blocks.size := by
  change ((function.addEdges at_ instruction.targets).append at_ instruction).blocks.size = _
  rw [append, Table.size_modify, size_addEdges]

theorem add_eq (at_ : BlockId) (instruction : Instruction) : function.add at_ instruction =
    { function with blocks := (function.add at_ instruction).blocks } := by
  change (function.addEdges at_ instruction.targets).append at_ instruction = _
  rw [addEdges_eq]
  rfl

@[simp] theorem registers_add (at_ : BlockId) (instruction : Instruction) :
    (function.add at_ instruction).registers = function.registers := by
  rw [add_eq]

@[simp] theorem slots_add (at_ : BlockId) (instruction : Instruction) :
    (function.add at_ instruction).slots = function.slots := by
  rw [add_eq]

@[simp] theorem name_add (at_ : BlockId) (instruction : Instruction) :
    (function.add at_ instruction).name = function.name := by
  rw [add_eq]

@[simp] theorem linkage_add (at_ : BlockId) (instruction : Instruction) :
    (function.add at_ instruction).linkage = function.linkage := by
  rw [add_eq]

@[simp] theorem signature_add (at_ : BlockId) (instruction : Instruction) :
    (function.add at_ instruction).signature = function.signature := by
  rw [add_eq]

@[simp] theorem parameters_add (at_ : BlockId) (instruction : Instruction) :
    (function.add at_ instruction).parameters = function.parameters := by
  rw [add_eq]

include hAt in
theorem codeAt_add (id : BlockId) : (function.add at_ instruction).codeAt id =
    if id = at_ then function.codeAt id ++ [instruction] else function.codeAt id := by
  change ((function.addEdges at_ instruction.targets).append at_ instruction).codeAt id = _
  rw [codeAt_append _ (by rw [size_addEdges]; exact hAt), codeAt_addEdges]

include hAt in
theorem bodyAt_add (hAlloca : instruction.isAlloca = false) (id : BlockId) :
    (function.add at_ instruction).bodyAt id =
      if id = at_ then function.bodyAt id ++ [instruction] else function.bodyAt id := by
  rw [bodyAt, codeAt_add function hAt]
  split
  · exact dropWhile_append_instruction _ hAlloca
  · rfl

include hAt in
theorem successorsAt_add (hAlloca : instruction.isAlloca = false) (id : BlockId) :
    (function.add at_ instruction).successorsAt id =
      if id = at_ then function.successorsAt id ++ instruction.targets
      else function.successorsAt id := by
  rw [successorsAt, bodyAt_add function hAt hAlloca]
  split
  · simp [successorsAt]
  · rfl

include hAt in
theorem definesAt_add (hAlloca : instruction.isAlloca = false) (id : BlockId) :
    (function.add at_ instruction).definesAt id =
      if id = at_ then function.definesAt id ++ instruction.destination?.toList
      else function.definesAt id := by
  rw [definesAt, bodyAt_add function hAt hAlloca]
  split
  · cases hDestination : instruction.destination? <;> simp [definesAt, hDestination]
  · rfl

theorem mem_predecessorsAt_add
    (hTargets : ∀ target ∈ instruction.targets, target.index < function.blocks.size)
    (id other : BlockId) : other ∈ ((function.add at_ instruction).predecessorsAt id).ids ↔
      other ∈ (function.predecessorsAt id).ids ∨ other = at_ ∧ id ∈ instruction.targets := by
  change other ∈ (((function.addEdges at_ _).append at_ instruction).predecessorsAt id).ids ↔ _
  rw [predecessorsAt_append]
  exact mem_predecessorsAt_addEdges function at_ _ hTargets id other

theorem predecessorsAt_add_of_not_mem {id : BlockId} (h : id ∉ instruction.targets) :
    (function.add at_ instruction).predecessorsAt id = function.predecessorsAt id := by
  change ((function.addEdges at_ _).append at_ instruction).predecessorsAt id = _
  rw [predecessorsAt_append]
  exact predecessorsAt_addEdges_of_not_mem function at_ _ h

theorem sorted_predecessorsAt_add
    (hTargets : ∀ target ∈ instruction.targets, target.index < function.blocks.size) (id : BlockId)
    (h : (function.predecessorsAt id).Sorted) :
    ((function.add at_ instruction).predecessorsAt id).Sorted := by
  change (((function.addEdges at_ _).append at_ instruction).predecessorsAt id).Sorted
  rw [predecessorsAt_append]
  exact sorted_predecessorsAt_addEdges function at_ _ hTargets id h

end Add

end Function
end Slate
