import Slate.Proofs.Verified

/-! # Strict single assignment

In a lowered function every register is a parameter or written by exactly one instruction, and on every path
through the blocks that instruction stands before every use. The verifier checks neither. A phi uses
its operands at the end of the blocks they come from.
-/

namespace Slate
set_option autoImplicit false

namespace Function

/-- The instruction at a position of a block. -/
def At (f : Function) (id : BlockId) (i : Nat) (instruction : Instruction) : Prop :=
  ∃ block, f.blocks.get? id = some block ∧ block.code[i]? = some instruction

def Writes (f : Function) (register : RegisterId) (id : BlockId) (i : Nat) : Prop :=
  ∃ instruction, f.At id i instruction ∧ instruction.destination? = some register

/-- A path of control from the first block to the given one, with the blocks it passes on the way. -/
inductive Path (f : Function) : List BlockId → BlockId → Prop
  | start : Path f [] ⟨0⟩
  | step {passed : List BlockId} {id target : BlockId} {block : Block} (path : Path f passed id)
      (found : f.blocks.get? id = some block) (edge : target ∈ block.successors) :
      Path f (passed ++ [id]) target

/-- A register is written before a position of the block that a path leads to. -/
def WrittenBefore (f : Function) (passed : List BlockId) (id : BlockId) (i : Nat)
    (register : RegisterId) : Prop :=
  register ∈ f.parameters ∨ ∃ d j, f.Writes register d j ∧ (d ∈ passed ∨ d = id ∧ j < i)

structure StrictSsa (f : Function) : Prop where
  parameter : ∀ register ∈ f.parameters, ∀ id i, ¬ f.Writes register id i
  once : ∀ register : RegisterId, register.index < f.registers.size → register ∉ f.parameters →
    ∃ id i, f.Writes register id i ∧
      ∀ other j, f.Writes register other j → other = id ∧ j = i
  uses : ∀ passed id, f.Path passed id → ∀ i instruction, f.At id i instruction →
    instruction.isPhi = false → ∀ register ∈ instruction.reads, f.WrittenBefore passed id i register
  phis : ∀ passed source, f.Path passed source → ∀ block, f.blocks.get? source = some block →
    ∀ id i destination sources, f.At id i (.phi destination sources) →
      ∀ register, (source, .register register) ∈ sources.entries →
        f.WrittenBefore passed source block.code.length register

section Positions

open Instruction

theorem getElem?_of_mem_filterMap {code : List Instruction} {register : RegisterId}
    (h : register ∈ code.filterMap destination?) :
    ∃ (i : Nat) (instruction : Instruction),
      code[i]? = some instruction ∧ instruction.destination? = some register := by
  obtain ⟨instruction, hMem, hDestination⟩ := List.mem_filterMap.mp h
  obtain ⟨i, hi⟩ := List.getElem?_of_mem hMem
  exact ⟨i, instruction, hi, hDestination⟩

/-- In a list that writes no register twice, a register has one position. -/
theorem position_unique {code : List Instruction} (h : (code.filterMap destination?).Nodup)
    {i j : Nat} {first second : Instruction} {register : RegisterId} (hi : code[i]? = some first)
    (hj : code[j]? = some second) (hFirst : first.destination? = some register)
    (hSecond : second.destination? = some register) : i = j := by
  induction code generalizing i j with
  | nil => cases hi
  | cons head rest ih =>
    have hRest : (rest.filterMap destination?).Nodup := h.sublist ((List.sublist_cons_self _ _).filterMap _)
    have hHead : head.destination? = some register → ∀ {k : Nat} {other : Instruction},
        rest[k]? = some other → other.destination? = some register → False := by
      intro hHead k other hOther hDestination
      rw [List.filterMap_cons_some hHead] at h
      exact (List.nodup_cons.mp h).1
        (List.mem_filterMap.mpr ⟨other, List.mem_of_getElem? hOther, hDestination⟩)
    cases i with
    | zero =>
      cases j with
      | zero => rfl
      | succ j =>
        cases hi
        exact (hHead hFirst hj hSecond).elim
    | succ i =>
      cases j with
      | zero =>
        cases hj
        exact (hHead hSecond hi hFirst).elim
      | succ j => exact congrArg Nat.succ (ih hRest hi hj)

/-- Where a body reads a register that was not written at its start, it has written it. -/
theorem ReadsOnly.written_before {written : RegisterId → Prop} {code : List Instruction}
    (h : ReadsOnly written code) {i : Nat} {instruction : Instruction}
    (hi : code[i]? = some instruction) (hPhi : instruction.isPhi = false) {register : RegisterId}
    (hRead : register ∈ instruction.reads) : written register ∨
      ∃ j < i, ∃ other : Instruction, code[j]? = some other ∧ other.destination? = some register := by
  induction code generalizing written i with
  | nil => cases hi
  | cons head rest ih =>
    cases i with
    | zero =>
      cases hi
      exact .inl (h.1 hPhi register hRead)
    | succ i =>
      rcases ih h.2 hi with (hWritten | hHead) | ⟨j, hj, other, hOther, hDestination⟩
      · exact .inl hWritten
      · exact .inr ⟨0, Nat.succ_pos i, head, rfl, hHead⟩
      · exact .inr ⟨j + 1, Nat.succ_lt_succ hj, other, hOther, hDestination⟩

end Positions

section Lowered

variable {context : Context} {plan : Plan} {f : Function} (h : f.Staged context plan)
include h

/-- The instructions of a block are `alloca`s up to a position, and the body behind it. -/
theorem Staged.at_iff {id : BlockId} {i : Nat} {instruction : Instruction} :
    f.At id i instruction ↔ (f.prologueAt id ++ f.bodyAt id)[i]? = some instruction := by
  rw [← h.sound.framed.code]
  constructor
  · rintro ⟨block, hBlock, hi⟩
    rw [f.codeAt_of_get? hBlock]
    exact hi
  · intro hi
    cases hBlock : f.blocks.get? id with
    | none =>
      rw [f.codeAt_of_size_le ((Table.get?_eq_none_iff _ _).mp hBlock)] at hi
      cases hi
    | some block =>
      rw [f.codeAt_of_get? hBlock] at hi
      exact ⟨block, hBlock, hi⟩

theorem Staged.at_body {id : BlockId} {i : Nat} {instruction : Instruction}
    (hBody : (f.bodyAt id)[i]? = some instruction) :
    f.At id ((f.prologueAt id).length + i) instruction := by
  rw [h.at_iff, List.getElem?_append_right (Nat.le_add_right _ _), Nat.add_sub_cancel_left]
  exact hBody

/-- An instruction that reads or writes registers stands in the body. -/
theorem Staged.at_cases {id : BlockId} {i : Nat} {instruction : Instruction}
    (hAt : f.At id i instruction) :
    (∃ slot, instruction = .alloca slot) ∨
      ∃ k, i = (f.prologueAt id).length + k ∧ (f.bodyAt id)[k]? = some instruction := by
  rw [h.at_iff] at hAt
  by_cases hi : i < (f.prologueAt id).length
  · rw [List.getElem?_append_left hi] at hAt
    obtain ⟨_, slot, _, hSlot⟩ := mem_prologueAt (List.mem_of_getElem? hAt)
    exact .inl ⟨slot, hSlot⟩
  · rw [List.getElem?_append_right (Nat.not_lt.mp hi)] at hAt
    exact .inr ⟨_, (Nat.add_sub_of_le (Nat.not_lt.mp hi)).symm, hAt⟩

theorem Staged.writes_cases {register : RegisterId} {id : BlockId} {i : Nat}
    (hWrites : f.Writes register id i) : ∃ k instruction, i = (f.prologueAt id).length + k ∧
      (f.bodyAt id)[k]? = some instruction ∧ instruction.destination? = some register := by
  obtain ⟨instruction, hAt, hDestination⟩ := hWrites
  rcases h.at_cases hAt with ⟨slot, rfl⟩ | ⟨k, rfl, hk⟩
  · cases hDestination
  · exact ⟨k, instruction, rfl, hk, hDestination⟩

theorem Staged.mem_definesAt {register : RegisterId} {id : BlockId} {i : Nat}
    (hWrites : f.Writes register id i) : register ∈ f.definesAt id := by
  obtain ⟨k, instruction, -, hk, hDestination⟩ := h.writes_cases hWrites
  exact List.mem_filterMap.mpr ⟨instruction, List.mem_of_getElem? hk, hDestination⟩

theorem Staged.exists_writes {register : RegisterId} {id : BlockId}
    (hMem : register ∈ f.definesAt id) :
    ∃ i, i < (f.codeAt id).length ∧ f.Writes register id i := by
  obtain ⟨i, instruction, hi, hDestination⟩ := getElem?_of_mem_filterMap hMem
  refine ⟨(f.prologueAt id).length + i, ?_, instruction, h.at_body hi, hDestination⟩
  rw [h.sound.framed.code, List.length_append]
  exact Nat.add_lt_add_left (List.getElem?_eq_some_iff.mp hi).1 _

/-- What is surely written at the start of a block is written on every path to it. -/
theorem Staged.entering_path (hFrontier : plan.frontier = ∅) {passed : List BlockId} {id : BlockId}
    (path : f.Path passed id) {register : RegisterId} (hEntering : plan.entering id register) :
    register ∈ f.parameters ∨ ∃ d ∈ passed, ∃ j, f.Writes register d j := by
  induction path with
  | start => exact .inl (h.sound.dominated.start register hEntering)
  | @step passed id target block path hFound hEdge ih =>
    rw [h.successors_eq hFrontier hFound] at hEdge
    rcases h.sound.dominated.edges id target hEdge register hEntering with hBefore | hHere
    · refine (ih hBefore).imp_right ?_
      rintro ⟨d, hd, j, hWrites⟩
      exact ⟨d, List.mem_append_left _ hd, j, hWrites⟩
    · obtain ⟨j, -, hWrites⟩ := h.exists_writes hHere
      exact .inr ⟨id, List.mem_append_right _ (List.mem_singleton_self id), j, hWrites⟩

theorem Staged.writtenBefore_of_entering (hFrontier : plan.frontier = ∅) {passed : List BlockId}
    {id : BlockId} (path : f.Path passed id) (i : Nat) {register : RegisterId}
    (hEntering : plan.entering id register) : f.WrittenBefore passed id i register := by
  refine (h.entering_path hFrontier path hEntering).imp_right ?_
  rintro ⟨d, hd, j, hWrites⟩
  exact ⟨d, j, hWrites, .inl hd⟩

theorem Staged.strictSsa (hFrontier : plan.frontier = ∅) : f.StrictSsa where
  parameter register hMem id i hWrites := by
    rw [h.sound.framed.parameters] at hMem
    obtain ⟨n, hn, rfl⟩ := List.mem_map.mp hMem
    have hFresh := (h.sound.single.fresh id _ (h.mem_definesAt hWrites)).1
    exact Nat.not_le.mpr (List.mem_range.mp hn) hFresh
  once register hRegister hMem := by
    have hFresh : f.parameters.length ≤ register.index := by
      by_contra hSmall
      refine hMem ?_
      rw [h.sound.framed.parameters]
      exact List.mem_map.mpr ⟨register.index, List.mem_range.mpr (Nat.not_le.mp hSmall), rfl⟩
    obtain ⟨id, hDefines⟩ := h.sound.single.total register hFresh hRegister
    obtain ⟨i, -, hWrites⟩ := h.exists_writes hDefines
    refine ⟨id, i, hWrites, fun other j hOther => ?_⟩
    have hEq := h.sound.single.apart other id register (h.mem_definesAt hOther) hDefines
    subst hEq
    obtain ⟨k, first, rfl, hFirst, hFirstWrites⟩ := h.writes_cases hWrites
    obtain ⟨l, second, rfl, hSecond, hSecondWrites⟩ := h.writes_cases hOther
    have hPosition := position_unique (h.sound.single.once other) hFirst hSecond hFirstWrites
      hSecondWrites
    exact ⟨rfl, congrArg _ hPosition.symm⟩
  uses passed id path i instruction hAt hPhi register hRead := by
    rcases h.at_cases hAt with ⟨slot, rfl⟩ | ⟨k, rfl, hk⟩
    · cases hRead
    rcases ReadsOnly.written_before (h.sound.dominated.reads id) hk hPhi hRead with
      hEntering | ⟨j, hj, other, hOther, hDestination⟩
    · exact h.writtenBefore_of_entering hFrontier path _ hEntering
    · exact .inr ⟨id, _, ⟨other, h.at_body hOther, hDestination⟩, .inr ⟨rfl, Nat.add_lt_add_left hj _⟩⟩
  phis passed source path block hBlock id i destination sources hAt register hMem := by
    rcases h.at_cases hAt with ⟨slot, hSlot⟩ | ⟨k, rfl, hk⟩
    · cases hSlot
    rcases h.sound.dominated.phis id destination sources (List.mem_of_getElem? hk) source register hMem
      with hEntering | hDefines
    · exact h.writtenBefore_of_entering hFrontier path _ hEntering
    · obtain ⟨j, hj, hWrites⟩ := h.exists_writes hDefines
      rw [f.codeAt_of_get? hBlock] at hj
      exact .inr ⟨source, j, hWrites, .inr ⟨rfl, hj⟩⟩

end Lowered

end Function

/-- Every function with a body in the module of a program is in strict single assignment form. -/
theorem strictSsa_of_lowerProgram (name : String) (program : List Item) (id : FunctionId)
    (function : Function) (hFound : (lowerProgram name program).1.get? id = some function)
    (hBody : function.isDeclaration = false) : function.StrictSsa := by
  rcases (lowerProgram_lowered name program).cases hFound with hBare | ⟨_, plan, hStaged, hFrontier⟩
  · rw [hBare, Function.isDeclaration_bare] at hBody
    cases hBody
  · exact hStaged.strictSsa hFrontier

/-- A function that counts down to its base case, called in the body of a loop. -/
def countdown : List Item :=
  let span : Span := ⟨0, 0⟩
  let name : String → Name := fun text => ⟨text, span⟩
  let n := Expr.variable span (name "n")
  let i := Expr.variable span (name "i")
  [.definition span ⟨span, name "down", [name "n"]⟩
      (.branch span (.compare span .less n (.int span 1)) []
        [.binary span .add n (.call span (name "down") [.binary span .subtract n (.int span 1)])]),
    .expression (.loop span (.assign span (name "i") (.int span 0)) (.compare span .less i (.int span 3))
      (.assign span (name "i") (.binary span .add i (.int span 1)))
      [.call span (name "down") [i]])]

theorem strictSsa_countdown : ∃ function : Function,
    (lowerProgram "m" countdown).1.get? ⟨2⟩ = some function ∧ function.isDeclaration = false ∧
      function.blocks.size = 4 ∧ function.StrictSsa := by
  have hFound : ((lowerProgram "m" countdown).1.get? ⟨2⟩).any
      (fun function => !function.isDeclaration && decide (function.blocks.size = 4)) = true := by
    decide +kernel
  obtain ⟨function, hGet, hFunction⟩ := (Option.any_eq_true _ _).mp hFound
  rw [Bool.and_eq_true, Bool.not_eq_true', decide_eq_true_iff] at hFunction
  exact ⟨function, hGet, hFunction.1, hFunction.2,
    strictSsa_of_lowerProgram "m" countdown ⟨2⟩ function hGet hFunction.1⟩

end Slate
