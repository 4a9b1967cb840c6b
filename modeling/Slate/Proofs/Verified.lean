import Slate.Ir.Render
import Slate.Proofs.Lists
import Slate.Proofs.Lowering.Program

/-! # Lowered modules are well-formed

A function whose construction has ended keeps all rules of the intermediate form, so the verifier accepts
the module of every program, and everything that printing it looks up is there.
-/

namespace Slate
set_option autoImplicit false

namespace Instruction

theorem targets_eq_nil {instruction : Instruction} (h : instruction.isTerminator = false) :
    instruction.targets = [] := by
  rw [List.eq_nil_iff_forall_not_mem]
  intro target hTarget
  rw [isTerminator_of_mem_targets hTarget] at h
  cases h

theorem Closed.flatMap_targets {code : List Instruction} (h : Closed code) :
    ∃ last, code.getLast? = some last ∧ last.isTerminator = true ∧
      code.flatMap targets = last.targets := by
  obtain ⟨front, last, rfl, hLast, hFront⟩ := h
  refine ⟨last, List.getLast?_concat, hLast, ?_⟩
  have hNone : front.flatMap targets = [] :=
    List.flatMap_eq_nil_iff.mpr fun instruction hMem => targets_eq_nil (hFront instruction hMem)
  rw [List.flatMap_append, hNone, List.flatMap_singleton, List.nil_append]

theorem Closed.append {front code : List Instruction} (h : Closed code)
    (hFront : ∀ instruction ∈ front, instruction.isTerminator = false) : Closed (front ++ code) := by
  obtain ⟨rest, last, rfl, hLast, hRest⟩ := h
  refine ⟨front ++ rest, last, (List.append_assoc _ _ _).symm, hLast, ?_⟩
  intro instruction hMem
  rcases List.mem_append.mp hMem with hMem | hMem
  · exact hFront instruction hMem
  · exact hRest instruction hMem

end Instruction

namespace Function

variable {context : Context} {plan : Plan} {f : Function}

theorem mem_prologueAt {id : BlockId} {instruction : Instruction} (h : instruction ∈ f.prologueAt id) :
    id = ⟨0⟩ ∧ ∃ slot : SlotId, slot.index < f.slots.size ∧ instruction = .alloca slot := by
  rw [prologueAt] at h
  split at h
  · rename_i hId
    obtain ⟨n, hn, rfl⟩ := List.mem_map.mp h
    exact ⟨(Id.eq_iff _ _).mpr hId, ⟨n⟩, List.mem_range.mp hn, rfl⟩
  · cases h

namespace Staged

variable (h : f.Staged context plan) (hFrontier : plan.frontier = ∅)
include h hFrontier

theorem closed {id : BlockId} (hId : id.index < f.blocks.size) : Instruction.Closed (f.bodyAt id) := by
  refine h.finished id hId ?_
  rw [hFrontier]
  exact Set.notMem_empty id

theorem closed_code {id : BlockId} (hId : id.index < f.blocks.size) :
    Instruction.Closed (f.codeAt id) := by
  rw [h.sound.framed.code]
  refine (h.closed hFrontier hId).append fun instruction hMem => ?_
  obtain ⟨_, slot, _, rfl⟩ := mem_prologueAt hMem
  rfl

/-- The successors of a block are those that its body leads to. -/
theorem successors_eq {id : BlockId} {block : Block} (hBlock : f.blocks.get? id = some block) :
    block.successors = f.successorsAt id := by
  have hId := Table.lt_of_get? hBlock
  obtain ⟨last, hLast, hTerminator, hTargets⟩ := (h.closed hFrontier hId).flatMap_targets
  have hCode : block.code.getLast? = some last := by
    rw [← f.codeAt_of_get? hBlock, h.sound.framed.code, List.getLast?_append, hLast]
    rfl
  rw [Block.successors, Block.terminator?, hCode, Option.filter_some, if_pos hTerminator,
    successorsAt, hTargets]
  rfl

omit hFrontier in
theorem phisFirst_code {id : BlockId} : Instruction.PhisFirst (f.codeAt id) := by
  rw [h.sound.framed.code]
  by_cases hId : id = ⟨0⟩
  · intro instruction hMem
    rcases List.mem_append.mp ((List.dropWhile_suffix _).subset hMem) with hMem | hMem
    · obtain ⟨_, slot, _, rfl⟩ := mem_prologueAt hMem
      rfl
    · rw [hId] at hMem
      exact h.sound.wired.entryPhi instruction hMem
  · have hEmpty : f.prologueAt id = [] := by
      rw [List.eq_nil_iff_forall_not_mem]
      exact fun instruction hMem => hId (mem_prologueAt hMem).1
    rw [hEmpty]
    exact h.sound.wired.phisFirst id

theorem wellFormed : f.WellFormed context.signature? where
  closed id block hBlock := by
    rw [← f.codeAt_of_get? hBlock]
    exact h.closed_code hFrontier (Table.lt_of_get? hBlock)
  phisFirst id block hBlock := by
    rw [← f.codeAt_of_get? hBlock]
    exact h.phisFirst_code
  fits id block hBlock instruction hMem := by
    rw [← f.predecessorsAt_of_get? hBlock]
    rw [← f.codeAt_of_get? hBlock, h.sound.framed.code] at hMem
    rcases List.mem_append.mp hMem with hMem | hMem
    · obtain ⟨_, slot, hSlot, rfl⟩ := mem_prologueAt hMem
      have hOwn : ∀ found, (Instruction.alloca slot).slot? = some found →
          found.index < f.slots.size := by
        intro found hFound
        cases hFound
        exact hSlot
      exact ⟨nofun, nofun, hOwn, trivial, trivial⟩
    · exact h.sound.wired.fits id instruction hMem
  sorted id block hBlock := by
    rw [← f.predecessorsAt_of_get? hBlock]
    exact h.sound.wired.sorted id
  predecessors id block hBlock source := by
    rw [← f.predecessorsAt_of_get? hBlock, h.sound.wired.predecessors]
    constructor
    · intro hMem
      obtain ⟨row, hRow⟩ := Table.exists_of_lt (f.lt_size_of_mem_successorsAt hMem)
      exact ⟨row, hRow, (h.successors_eq hFrontier hRow).symm ▸ hMem⟩
    · rintro ⟨row, hRow, hMem⟩
      rw [← h.successors_eq hFrontier hRow]
      exact hMem

end Staged
end Function

namespace Render

theorem isSome_bind {α β : Type} {value : Option α} {next : α → Option β}
    (hValue : value.isSome = true) (hNext : ∀ a, value = some a → (next a).isSome = true) :
    (value >>= next).isSome = true := by
  obtain ⟨a, rfl⟩ := Option.isSome_iff_exists.mp hValue
  exact hNext a rfl

theorem isSome_get? {kind : IdKind} {α : Type} {table : Table kind α} {id : Id kind}
    (h : id.index < table.size) : (table.get? id).isSome = true := by
  obtain ⟨row, hRow⟩ := Table.exists_of_lt h
  rw [hRow]
  rfl

/-- An instruction that keeps the rules has a text. -/
theorem isSome_instruction (module : Module) {signature? : FunctionId → Option Signature} {f : Function}
    {p : IdSet .block} {i : Instruction} (h : i.Fits signature? f p) :
    (instruction module f i).isSome = true := by
  cases i with
  | alloca slot => exact isSome_bind (isSome_get? (h.slot slot rfl)) fun _ _ => rfl
  | phi destination sources =>
    exact isSome_bind (isSome_get? (h.writes destination rfl)) fun _ _ => rfl
  | ret value => cases value <;> rfl
  | load _ _ | store _ _ | arith _ _ _ _ | compare _ _ _ _ | extend _ _ _ | call _ _ _ | jump _
  | branch _ _ _ => rfl

theorem isSome_header {f : Function} (h : ∀ id ∈ f.parameters, id.index < f.registers.size) :
    (header f).isSome = true := by
  refine isSome_bind (isSome_mapM_iff.mpr fun id hMem => ?_) fun _ _ => rfl
  exact isSome_bind (isSome_get? (h id hMem)) fun _ _ => rfl

theorem isSome_function (module : Module) {signature? : FunctionId → Option Signature} {f : Function}
    (hHeader : ∀ id ∈ f.parameters, id.index < f.registers.size)
    (hBody : f.isDeclaration = false → f.WellFormed signature?) :
    (function module f).isSome = true := by
  refine isSome_bind (isSome_header hHeader) fun head _ => ?_
  cases hDeclaration : f.isDeclaration with
  | true => rfl
  | false =>
    have hWellFormed := hBody hDeclaration
    refine isSome_bind (isSome_mapM_iff.mpr fun entry hEntry => ?_) fun _ _ => rfl
    obtain ⟨id, block⟩ := entry
    have hBlock := (Table.mem_entries_iff _ _ _).mp hEntry
    refine isSome_bind (isSome_mapM_iff.mpr fun i hMem => ?_) fun _ _ => rfl
    exact isSome_bind (isSome_instruction module (hWellFormed.fits id block hBlock i hMem)) fun _ _ => rfl

end Render

namespace Module.Lowered

variable {width : Nat} {module : Module} (h : module.Lowered width)
include h

/-- Every function is a bare declaration for the host or has a finished body. -/
theorem cases {id : FunctionId} {f : Function} (hFound : module.get? id = some f) :
    f = .bare f.name f.signature .external ∨
      0 < f.blocks.size ∧ ∃ plan, f.Staged ⟨module.signature?, width⟩ plan ∧ plan.frontier = ∅ := by
  by_cases hHost : id = ⟨0⟩
  · rw [hHost, h.host] at hFound
    cases hFound
    exact .inl rfl
  · by_cases hEntry : id = ⟨1⟩
    · obtain ⟨entry, plan, hGet, _, _, _, hSize, hStaged, hFrontier⟩ := h.entry
      rw [hEntry, hGet] at hFound
      cases hFound
      exact .inr ⟨hSize, plan, hStaged, hFrontier⟩
    · have hWritten := h.written id f hFound hHost hEntry
      refine hWritten.completed.imp_left fun hBare => ?_
      rw [hWritten.linkage] at hBare
      exact hBare

theorem wellFormed : module.WellFormed := by
  refine ⟨?_, ?_⟩
  · intro f hMem hDeclaration
    obtain ⟨id, hFound⟩ := (h.sorted.mem_values_iff f).mp hMem
    rcases h.cases hFound with hBare | ⟨hSize, _⟩
    · rw [hBare]
      rfl
    · exact absurd ((Table.isEmpty_iff _).mp hDeclaration) (Nat.ne_of_gt hSize)
  · intro f hMem hBody
    obtain ⟨id, hFound⟩ := (h.sorted.mem_values_iff f).mp hMem
    rcases h.cases hFound with hBare | ⟨_, plan, hStaged, hFrontier⟩
    · rw [hBare, Function.isDeclaration_bare] at hBody
      cases hBody
    · exact hStaged.wellFormed hFrontier

theorem parameters_lt {id : FunctionId} {f : Function} (hFound : module.get? id = some f) :
    ∀ register ∈ f.parameters, register.index < f.registers.size := by
  intro register hMem
  rcases h.cases hFound with hBare | ⟨_, plan, hStaged, _⟩
  · rw [hBare] at hMem ⊢
    obtain ⟨n, hn, rfl⟩ := List.mem_map.mp hMem
    rw [Function.size_registers_bare]
    exact List.mem_range.mp hn
  · exact Table.lt_of_get? (hStaged.sound.framed.parameterTypes register hMem)

theorem isSome_render? : module.render?.isSome = true := by
  refine Render.isSome_bind (isSome_mapM_iff.mpr fun f hMem => ?_) fun _ _ => rfl
  obtain ⟨id, hFound⟩ := (h.sorted.mem_values_iff f).mp hMem
  exact Render.isSome_bind (Render.isSome_function module (h.parameters_lt hFound)
    (h.wellFormed.body f hMem)) fun _ _ => rfl

end Module.Lowered
end Slate
