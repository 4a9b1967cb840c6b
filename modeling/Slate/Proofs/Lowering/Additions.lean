import Slate.Proofs.Lowering.Definition

/-! # What lowering adds to a function

Lowering never takes anything back: it adds blocks, and instructions to blocks that are there. `Adds` says so and
names the kind of the new instructions, so that what holds of each of them holds of the whole function. Most actions
add plain instructions only and touch neither the variables nor the reports; those are `Quiet`.
-/

namespace Slate
set_option autoImplicit false

/-- Neither a call nor a way to another block. -/
structure Instruction.Plain (instruction : Instruction) : Prop where
  targets : instruction.targets = []
  calls : ∀ id, instruction.calls id = false

namespace Function

structure Adds (kind : BlockId → Instruction → Prop) (f g : Function) : Prop where
  size : f.blocks.size ≤ g.blocks.size
  old : ∀ id, ∀ instruction ∈ f.codeAt id, instruction ∈ g.codeAt id
  new : ∀ id, ∀ instruction ∈ g.codeAt id, instruction ∈ f.codeAt id ∨ kind id instruction

variable {kind : BlockId → Instruction → Prop} {f g k : Function}

namespace Adds

theorem of_codeAt (hSize : f.blocks.size ≤ g.blocks.size) (hCode : ∀ id, g.codeAt id = f.codeAt id) :
    f.Adds kind g := by
  refine ⟨hSize, ?_, ?_⟩
  · intro id instruction hMem
    rw [hCode]
    exact hMem
  · intro id instruction hMem
    rw [hCode] at hMem
    exact .inl hMem

theorem refl (f : Function) : f.Adds kind f := of_codeAt (Nat.le_refl _) fun _ => rfl

theorem trans (h : f.Adds kind g) (hNext : g.Adds kind k) : f.Adds kind k := by
  refine ⟨Nat.le_trans h.size hNext.size, ?_, ?_⟩
  · intro id instruction hMem
    exact hNext.old id instruction (h.old id instruction hMem)
  · intro id instruction hMem
    rcases hNext.new id instruction hMem with hMem | hKind
    · exact h.new id instruction hMem
    · exact .inr hKind

theorem newRegister (f : Function) (ty : Ty) : f.Adds kind (f.newRegister ty) :=
  of_codeAt (Nat.le_refl _) fun _ => rfl

theorem newBlock (f : Function) (label : String) : f.Adds kind (f.newBlock label) := by
  apply of_codeAt
  · rw [Function.newBlock, Table.size_push]
    exact Nat.le_succ _
  · exact f.codeAt_newBlock label

theorem add (f : Function) {at_ : BlockId} (hAt : at_.index < f.blocks.size) {instruction : Instruction}
    (hKind : kind at_ instruction) : f.Adds kind (f.add at_ instruction) := by
  refine ⟨Nat.le_of_eq (f.size_add at_ instruction).symm, ?_, ?_⟩
  · intro id other hMem
    rw [codeAt_add f hAt]
    split
    · exact List.mem_append_left _ hMem
    · exact hMem
  · intro id other hMem
    rw [codeAt_add f hAt] at hMem
    split at hMem
    · rename_i hEq
      rcases List.mem_append.mp hMem with hMem | hMem
      · exact .inl hMem
      · rw [hEq, List.mem_singleton.mp hMem]
        exact .inr hKind
    · exact .inl hMem

theorem append (f : Function) {at_ : BlockId} (hAt : at_.index < f.blocks.size)
    {instruction : Instruction} (hTargets : instruction.targets = []) (hKind : kind at_ instruction) :
    f.Adds kind (f.append at_ instruction) := by
  rw [← f.add_eq_append at_ hTargets]
  exact add f hAt hKind

theorem newSlot (f : Function) (hSize : 0 < f.blocks.size) (slot : Slot)
    (hKind : ∀ id, kind ⟨0⟩ (.alloca id)) : f.Adds kind (f.newSlot ⟨0⟩ slot) := by
  have hMemIff : ∀ (id : SlotId) (code : List Instruction) (instruction : Instruction),
      instruction ∈ addAlloca id code ↔ instruction = .alloca id ∨ instruction ∈ code := by
    intro id code instruction
    rw [addAlloca, List.mem_append, List.mem_cons, or_left_comm, ← List.mem_append,
      List.takeWhile_append_dropWhile]
  refine ⟨Nat.le_of_eq (Table.size_modify _ _ _).symm, ?_, ?_⟩
  · intro id instruction hMem
    rw [codeAt_newSlot f hSize]
    split
    · exact (hMemIff _ _ _).mpr (.inr hMem)
    · exact hMem
  · intro id instruction hMem
    rw [codeAt_newSlot f hSize] at hMem
    split at hMem
    · rename_i hEq
      rcases (hMemIff _ _ _).mp hMem with rfl | hMem
      · rw [hEq]
        exact .inr (hKind _)
      · exact .inl hMem
    · exact .inl hMem

end Adds
end Function

namespace Lowering

variable {kind : BlockId → Instruction → Prop}

namespace Body

/-- A body that has come to a block that is there, with what was added on the way. -/
structure Adds (kind : BlockId → Instruction → Prop) (body body' : Body) : Prop where
  here : body'.draft.block.index < body'.draft.function.blocks.size
  code : body.draft.function.Adds kind body'.draft.function

structure Quiet (kind : BlockId → Instruction → Prop) (body body' : Body) : Prop
    extends Adds kind body body' where
  scope : body'.scope = body.scope
  diagnostics : body'.diagnostics = body.diagnostics

/-- The current block of a body is there. -/
def Here (body : Body) : Prop := body.draft.block.index < body.draft.function.blocks.size

variable {body body₁ body₂ : Body}

theorem Adds.trans (h : body.Adds kind body₁) (hNext : body₁.Adds kind body₂) : body.Adds kind body₂ :=
  ⟨hNext.here, h.code.trans hNext.code⟩

theorem Adds.bind {α β : Type} {action : Lower α} {next : α → Lower β}
    (h : body.Adds kind (action body).2)
    (hNext : ∀ value body', body.Adds kind body' → body'.Adds kind (next value body').2) :
    body.Adds kind ((action >>= next) body).2 :=
  h.trans (hNext _ _ h)

theorem Quiet.refl (h : body.Here) : body.Quiet kind body :=
  ⟨⟨h, .refl _⟩, rfl, rfl⟩

theorem Quiet.trans (h : body.Quiet kind body₁) (hNext : body₁.Quiet kind body₂) :
    body.Quiet kind body₂ :=
  ⟨h.toAdds.trans hNext.toAdds, hNext.scope.trans h.scope, hNext.diagnostics.trans h.diagnostics⟩

theorem Quiet.goTo (body : Body) {block : BlockId} (h : block.index < body.draft.function.blocks.size) :
    body.Quiet kind (body.goTo block) :=
  ⟨⟨h, .refl _⟩, rfl, rfl⟩

theorem Quiet.newBlock (h : body.Here) (label : String) : body.Quiet kind (body.newBlock label) := by
  refine ⟨⟨?_, .newBlock _ label⟩, rfl, rfl⟩
  rw [block_newBlock, size_newBlock]
  exact Nat.lt_succ_of_lt h

theorem Quiet.leave (h : body.Here) {terminator : Instruction} (hKind : kind body.draft.block terminator)
    {next : BlockId} (hNext : next.index < body.draft.function.blocks.size) :
    body.Quiet kind (body.leave terminator next) := by
  refine ⟨⟨?_, .add _ h hKind⟩, scope_leave _ _ _, diagnostics_leave _ _ _⟩
  rw [draft_leave, Function.size_add]
  exact hNext

theorem Quiet.fork (h : body.Here) (test : Operand)
    (hBranch : kind body.draft.block (.branch test body.next (body.newBlock "then").next)) :
    body.Quiet kind (body.fork test) := by
  have hThen : body.Quiet kind (body.newBlock "then") := .newBlock h _
  have hElse := hThen.trans (.newBlock hThen.here "else")
  apply hElse.trans
  apply Quiet.leave hElse.here hBranch
  rw [size_newBlock, size_newBlock]
  exact Nat.lt_succ_of_lt (Nat.lt_succ_self _)

theorem Quiet.openLoop (h : body.Here) (hJump : kind body.draft.block (.jump body.next)) :
    body.Quiet kind body.openLoop := by
  have hCond : body.Quiet kind (body.newBlock "cond") := .newBlock h _
  have hLoop := hCond.trans (.newBlock hCond.here "loop")
  have hAfter := hLoop.trans (.newBlock hLoop.here "afterloop")
  apply hAfter.trans
  apply Quiet.leave hAfter.here hJump
  rw [size_newBlock, size_newBlock, size_newBlock]
  exact Nat.lt_succ_of_lt (Nat.lt_succ_of_lt (Nat.lt_succ_self _))

theorem size_fork (body : Body) (test : Operand) :
    (body.fork test).draft.function.blocks.size = body.draft.function.blocks.size + 2 := by
  rw [fork, draft_leave, Function.size_add, size_newBlock, size_newBlock]

theorem size_openLoop (body : Body) :
    body.openLoop.draft.function.blocks.size = body.draft.function.blocks.size + 3 := by
  rw [openLoop, draft_leave, Function.size_add, size_newBlock, size_newBlock, size_newBlock]

end Body

/-- Whether a call may be written with this many arguments. -/
def Callee.Takes (callee : Callee) (given : Nat) : Prop :=
  if callee.signature.variadic then callee.signature.visibleArity ≤ given
  else given = callee.signature.visibleArity

instance (callee : Callee) (given : Nat) : Decidable (callee.Takes given) :=
  inferInstanceAs (Decidable (if callee.signature.variadic then callee.signature.visibleArity ≤ given
    else given = callee.signature.visibleArity))

theorem emitCall_eq (name : Name) (callee : Callee) (arguments : List Operand) :
    emitCall name callee arguments = if callee.Takes arguments.length then
        draft (Draft.call callee.id callee.signature.result
          (if callee.signature.variadic then withCount callee.signature.visibleArity arguments else arguments))
      else do
        report (.argumentCountMismatch name.text callee.signature.variadic callee.signature.visibleArity
          arguments.length) name.span
        return none :=
  rfl

/-! ## Actions in one block -/

section Plain

open Body (Quiet)

variable (hPlain : ∀ id instruction, Instruction.Plain instruction → kind id instruction) {body : Body}
  (h : body.Here)
include hPlain h

theorem emitResult_quiet (ty : Ty) (instruction : RegisterId → Instruction)
    (hInstruction : ∀ id, (instruction id).Plain) :
    body.Quiet kind (draft (Draft.emitResult ty instruction) body).2 := by
  have hAppend := Function.Adds.append (body.draft.function.newRegister ty) h (hInstruction _).targets
    (hPlain body.draft.block _ (hInstruction body.draft.function.registers.nextId))
  refine ⟨⟨?_, (Function.Adds.newRegister _ ty).trans hAppend⟩, rfl, rfl⟩
  exact Nat.lt_of_lt_of_le h hAppend.size

theorem store_quiet (slot : SlotId) (value : Operand) :
    body.Quiet kind (draft (Draft.store slot value) body).2 := by
  have hAppend : body.draft.function.Adds kind
      (body.draft.function.append body.draft.block (.store slot value)) :=
    .append _ h rfl (hPlain _ _ ⟨rfl, fun _ => rfl⟩)
  exact ⟨⟨Nat.lt_of_lt_of_le h hAppend.size, hAppend⟩, rfl, rfl⟩

theorem arith_quiet (op : Arith) (lhs rhs : Operand) :
    body.Quiet kind (draft (Draft.arith op lhs rhs) body).2 :=
  emitResult_quiet hPlain h _ _ fun _ => ⟨rfl, fun _ => rfl⟩

theorem compare_quiet (predicate : Predicate) (lhs rhs : Operand) :
    body.Quiet kind (draft (Draft.compare predicate lhs rhs) body).2 :=
  emitResult_quiet hPlain h _ _ fun _ => ⟨rfl, fun _ => rfl⟩

theorem load_quiet (slot : SlotId) : body.Quiet kind (draft (Draft.load .i32 slot) body).2 :=
  emitResult_quiet hPlain h _ _ fun _ => ⟨rfl, fun _ => rfl⟩

theorem toWord_quiet (value : Operand) : body.Quiet kind (toWord value body).2 := by
  rw [toWord, isBit_bind]
  split
  · exact emitResult_quiet hPlain h _ _ fun _ => ⟨rfl, fun _ => rfl⟩
  · exact .refl h

theorem isTruthy_quiet (value : Operand) : body.Quiet kind (isTruthy value body).2 := by
  rw [isTruthy, isBit_bind]
  split
  · exact compare_quiet hPlain h _ _ _
  · exact compare_quiet hPlain h _ _ _

theorem isTrue_quiet (value : Operand) : body.Quiet kind (isTrue value body).2 := by
  rw [isTrue, isBit_bind]
  split
  · exact compare_quiet hPlain h _ _ _
  · exact compare_quiet hPlain h _ _ _

/-- Two operands are a pair of words if both are there. -/
theorem wordPair_quiet (lhs rhs : Option Operand) : body.Quiet kind (wordPair lhs rhs body).2 ∧
    (wordPair lhs rhs body).1.isSome = (lhs.isSome && rhs.isSome) := by
  cases lhs with
  | none => exact ⟨.refl h, rfl⟩
  | some left =>
    have hFirst := toWord_quiet hPlain h left
    cases rhs with
    | none => exact ⟨hFirst, rfl⟩
    | some right => exact ⟨hFirst.trans (toWord_quiet hPlain hFirst.here right), rfl⟩

omit hPlain in
/-- A call is added, and has a value unless the result is void. -/
theorem call_quiet (callee : FunctionId) (result : Ty) (passed : List Operand)
    (hKind : ∀ destination, kind body.draft.block (.call callee passed destination)) :
    body.Quiet kind (draft (Draft.call callee result passed) body).2 ∧
      (∃ destination, .call callee passed destination ∈
        (draft (Draft.call callee result passed) body).2.draft.function.codeAt body.draft.block) ∧
      ((draft (Draft.call callee result passed) body).1.isSome = decide (result ≠ .void)) := by
  have hAppend : ∀ (f : Function) destination, f.blocks = body.draft.function.blocks →
      f.Adds kind (f.append body.draft.block (.call callee passed destination)) ∧
        .call callee passed destination ∈
          (f.append body.draft.block (.call callee passed destination)).codeAt body.draft.block := by
    intro f destination hBlocks
    have hHere : body.draft.block.index < f.blocks.size := hBlocks ▸ h
    refine ⟨.append f hHere rfl (hKind destination), ?_⟩
    rw [f.codeAt_append hHere, if_pos rfl]
    exact List.mem_append_right _ List.mem_cons_self
  rw [Draft.call]
  split
  · rename_i hVoid
    obtain ⟨hAdds, hMem⟩ := hAppend body.draft.function none rfl
    exact ⟨⟨⟨Nat.lt_of_lt_of_le h hAdds.size, hAdds⟩, rfl, rfl⟩, ⟨none, hMem⟩, by simp [hVoid]; rfl⟩
  · rename_i hValue
    obtain ⟨hAdds, hMem⟩ := hAppend (body.draft.function.newRegister result)
      (some body.draft.function.registers.nextId) rfl
    exact ⟨⟨⟨Nat.lt_of_lt_of_le h hAdds.size, (Function.Adds.newRegister _ _).trans hAdds⟩, rfl, rfl⟩,
      ⟨_, hMem⟩, by simp [hValue]; rfl⟩

/-- A slot is made in the first block. -/
theorem slotFor_adds (name : String) : body.Adds kind (slotFor name body).2 := by
  rw [slotFor_eq]
  cases body.scope.find? name with
  | some slot => exact (Quiet.refl h).toAdds
  | none =>
    have hSlot := Function.Adds.newSlot body.draft.function (Nat.lt_of_le_of_lt (Nat.zero_le _) h)
      { ty := .i32, name } fun id => hPlain ⟨0⟩ (.alloca id) ⟨rfl, fun _ => rfl⟩
    exact ⟨Nat.lt_of_lt_of_le h hSlot.size, hSlot⟩

theorem bind_adds (name : String) (register : RegisterId) : body.Adds kind (body.bind name register) := by
  have hSlot := Function.Adds.newSlot body.draft.function (Nat.lt_of_le_of_lt (Nat.zero_le _) h)
    { ty := .i32, name } fun id => hPlain ⟨0⟩ (.alloca id) ⟨rfl, fun _ => rfl⟩
  have hHere := Nat.lt_of_lt_of_le h hSlot.size
  have hStore : (body.draft.function.newSlot ⟨0⟩ { ty := .i32, name }).Adds kind
      (body.bind name register).draft.function :=
    .append _ hHere rfl (hPlain _ _ ⟨rfl, fun _ => rfl⟩)
  exact ⟨Nat.lt_of_lt_of_le hHere hStore.size, hSlot.trans hStore⟩

theorem bindParameters_adds (parameters : List (Name × RegisterId)) :
    body.Adds kind (bindParameters parameters body).2 := by
  induction parameters generalizing body with
  | nil => exact (Quiet.refl h).toAdds
  | cons first rest ih =>
    have hFirst := bind_adds hPlain h first.1.text first.2
    exact hFirst.trans (ih hFirst.here)

theorem ret_quiet (value : Option Operand) : body.Quiet kind (draft (Draft.ret value) body).2 := by
  have hAppend : body.draft.function.Adds kind
      (body.draft.function.append body.draft.block (.ret value)) :=
    .append _ h rfl (hPlain _ _ ⟨rfl, fun _ => rfl⟩)
  exact ⟨⟨Nat.lt_of_lt_of_le h hAppend.size, hAppend⟩, rfl, rfl⟩

/-! ## Where two arms meet -/

variable {x y : BlockId} (hx : x.index < body.draft.function.blocks.size)
  (hy : y.index < body.draft.function.blocks.size)
include hx hy

theorem incoming_quiet (first second : Option Operand) :
    body.Quiet kind (incoming x y first second body).2 ∧
      (incoming x y first second body).1.isSome = (first.isSome && second.isSome) := by
  cases first with
  | none => exact ⟨.refl h, rfl⟩
  | some first =>
    cases second with
    | none => exact ⟨.refl h, rfl⟩
    | some second =>
      refine ⟨?_, rfl⟩
      change body.Quiet kind (unify x y first second body).2
      rw [unify_eq]
      split
      · exact .refl h
      · have hGoTo : body.Quiet kind (body.goTo x) := .goTo body hx
        have hFirst := hGoTo.trans (toWord_quiet hPlain hGoTo.here first)
        have hNext := hFirst.trans (.goTo _ (Nat.lt_of_lt_of_le hy hFirst.code.size))
        exact hNext.trans (toWord_quiet hPlain hNext.here second)

omit hx hy in
theorem conclude_quiet (values : Option (Operand × Operand)) :
    body.Quiet kind (conclude x y values body).2 ∧
      (conclude x y values body).1.isSome = values.isSome := by
  cases values with
  | none => exact ⟨.refl h, rfl⟩
  | some pair =>
    refine ⟨?_, rfl⟩
    exact emitResult_quiet hPlain h ((body.draft.function.operandType? pair.1).getD .i32)
      (.phi · (.ofList [(x, pair.1), (y, pair.2)])) fun _ => ⟨rfl, fun _ => rfl⟩

/-- Two arms meet in a new block, to which both jump. -/
theorem merge_quiet (hJump : ∀ id : BlockId, id.index < body.draft.function.blocks.size →
      kind id (.jump body.draft.function.blocks.nextId)) (first second : Option Operand) :
    body.Quiet kind (merge x y first second body).2 ∧
      (merge x y first second body).1.isSome = (first.isSome && second.isSome) := by
  rw [merge_eq]
  have hNew : body.Quiet kind (body.newBlock "ifcont") := .newBlock h "ifcont"
  have hx' := Nat.lt_of_lt_of_le hx hNew.code.size
  have hy' := Nat.lt_of_lt_of_le hy hNew.code.size
  have hNext : body.draft.function.blocks.nextId.index <
      (body.newBlock "ifcont").draft.function.blocks.size := by
    rw [Body.size_newBlock]
    exact Nat.lt_succ_self _
  obtain ⟨hIncoming, hBoth⟩ := incoming_quiet hPlain hNew.here hx' hy' first second
  change body.Quiet kind (conclude x y (incoming x y first second (body.newBlock "ifcont")).1
      ((incoming x y first second (body.newBlock "ifcont")).2.join x y _)).2 ∧
    (conclude x y (incoming x y first second (body.newBlock "ifcont")).1
      ((incoming x y first second (body.newBlock "ifcont")).2.join x y _)).1.isSome = _
  rw [← hBoth]
  generalize incoming x y first second (body.newBlock "ifcont") = met at hIncoming ⊢
  have hSize := hIncoming.code.size
  have hJoin : met.2.Quiet kind (met.2.join x y body.draft.function.blocks.nextId) := by
    have hFirst := Function.Adds.add met.2.draft.function (Nat.lt_of_lt_of_le hx' hSize) (hJump x hx)
    have hSecond := Function.Adds.add (met.2.draft.function.add x (.jump body.draft.function.blocks.nextId))
      (Nat.lt_of_lt_of_le hy' (Nat.le_trans hSize hFirst.size)) (hJump y hy)
    refine ⟨⟨?_, hFirst.trans hSecond⟩, Body.scope_join _ _ _ _, Body.diagnostics_join _ _ _ _⟩
    rw [Body.draft_join, Function.size_add, Function.size_add]
    exact Nat.lt_of_lt_of_le hNext hSize
  obtain ⟨hConclude, hSome⟩ := conclude_quiet hPlain hJoin.here met.1 (x := x) (y := y)
  exact ⟨((hNew.trans hIncoming).trans hJoin).trans hConclude, hSome⟩

end Plain

end Lowering
end Slate
