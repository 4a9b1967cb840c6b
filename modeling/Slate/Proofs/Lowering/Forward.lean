import Slate.Proofs.Lowering.Additions
import Slate.Proofs.Lowering.Names
import Slate.Proofs.Machine.Bounded
import Slate.Proofs.Machine.Soundness

/-! # Programs without loops end

A conditional jumps to blocks that it has just made, and only a loop goes back to an older one. So in the
functions of a program without loops control only goes forward, and all their runs end.
-/

namespace Slate
set_option autoImplicit false

mutual

def Expr.loopFree : Expr → Bool
  | .int .. | .variable .. => true
  | .binary _ _ lhs rhs | .compare _ _ lhs rhs => lhs.loopFree && rhs.loopFree
  | .assign _ _ value => value.loopFree
  | .branch _ condition positive negative =>
    condition.loopFree && allLoopFree positive && allLoopFree negative
  | .loop .. => false
  | .call _ _ arguments => allLoopFree arguments

def allLoopFree : List Expr → Bool
  | [] => true
  | first :: rest => first.loopFree && allLoopFree rest

end

def Item.loopFree : Item → Bool
  | .declaration .. => true
  | .definition _ _ body => body.loopFree
  | .expression body => body.loopFree

/-- An instruction of a block that does not lead back. -/
def Instruction.Upward (id : BlockId) (instruction : Instruction) : Prop :=
  ∀ target ∈ instruction.targets, id.index < target.index

open Instruction (Upward)

theorem Instruction.Plain.upward (id : BlockId) (instruction : Instruction) (h : instruction.Plain) :
    Upward id instruction := by
  intro target hTarget
  rw [h.targets] at hTarget
  cases hTarget

theorem Function.forward_iff (f : Function) :
    f.Forward ↔ ∀ id, ∀ instruction ∈ f.codeAt id, Upward id instruction := by
  constructor
  · intro h id instruction hMem
    cases hBlock : f.blocks.get? id with
    | none => simp [codeAt, hBlock] at hMem
    | some block =>
      rw [f.codeAt_of_get? hBlock] at hMem
      exact h id block hBlock instruction hMem
  · intro h id block hBlock
    rw [← f.codeAt_of_get? hBlock]
    exact h id

theorem Function.Forward.adds {f g : Function} (h : f.Forward) (hAdds : f.Adds Upward g) : g.Forward := by
  rw [forward_iff] at h ⊢
  intro id instruction hMem
  rcases hAdds.new id instruction hMem with hMem | hUpward
  · exact h id instruction hMem
  · exact hUpward

theorem Function.forward_of_isDeclaration {f : Function} (h : f.isDeclaration = true) : f.Forward := by
  intro id block hBlock
  have hSize := Table.lt_of_get? hBlock
  rw [(Table.isEmpty_iff _).mp h] at hSize
  exact absurd hSize (Nat.not_lt_zero _)

namespace Lowering

open Body (Adds Quiet Here)

variable {body : Body}

theorem emitCall_upward (h : body.Here) (name : Name) (callee : Callee) (arguments : List Operand) :
    body.Adds Upward (emitCall name callee arguments body).2 := by
  rw [emitCall_eq]
  split
  · refine (call_quiet h _ _ _ fun destination => ?_).1.toAdds
    intro target hTarget
    cases hTarget
  · exact ⟨h, .refl _⟩

/-- The arms of a conditional lie in new blocks, and the block where they meet is newer still. -/
theorem conditional_upward (h : body.Here) {positive negative : Lower (Option Operand)}
    (hPositive : ∀ body : Body, body.Here → body.Adds Upward (positive body).2)
    (hNegative : ∀ body : Body, body.Here → body.Adds Upward (negative body).2) (test : Operand) :
    body.Adds Upward (conditional positive negative test body).2 := by
  have hBranch : Upward body.draft.block (.branch test body.next (body.newBlock "then").next) := by
    intro target hTarget
    rcases List.mem_pair.mp hTarget with rfl | rfl
    · exact h
    · exact Nat.lt_of_lt_of_eq (Nat.lt_succ_of_lt h) (body.size_newBlock "then").symm
  have hFork : body.Quiet Upward (body.fork test) := .fork h test hBranch
  have hThen := hFork.toAdds.trans (hPositive _ hFork.here)
  have hElseBlock : (body.newBlock "then").next.index <
      (positive (body.fork test)).2.draft.function.blocks.size := by
    have hSize := (hPositive _ hFork.here).code.size
    have hNext : (body.newBlock "then").next.index = body.draft.function.blocks.size + 1 :=
      body.size_newBlock "then"
    rw [Body.size_fork] at hSize
    omega
  have hMoved := hThen.trans (Quiet.goTo _ hElseBlock).toAdds
  have hNegative' := hNegative _ hMoved.here
  have hElse := hMoved.trans hNegative'
  have hMerge := (merge_quiet (fun id i hi => hi.upward id) hElse.here
    (Nat.lt_of_lt_of_le hThen.here hNegative'.code.size) hElse.here
    (fun id hId => by
      intro target hTarget
      rw [List.mem_singleton.mp hTarget]
      exact hId)
    (positive (body.fork test)).1
    (negative ((positive (body.fork test)).2.goTo (body.newBlock "then").next)).1).1
  exact hElse.trans hMerge.toAdds

mutual

theorem expression_upward (callees : Callees) (e : Expr) (hLoop : e.loopFree = true) (body : Body)
    (h : body.Here) : body.Adds Upward (expression callees e body).2 := by
  cases e with
  | int span value =>
    rw [expression]
    exact (Quiet.refl h).toAdds
  | binary span op lhs rhs =>
    rw [Expr.loopFree, Bool.and_eq_true] at hLoop
    rw [expression]
    refine .bind (expression_upward callees lhs hLoop.1 body h) fun left body₁ h₁ => ?_
    refine .bind (expression_upward callees rhs hLoop.2 body₁ h₁.here) fun right body₂ h₂ => ?_
    refine .bind (wordPair_quiet Instruction.Plain.upward h₂.here left right).1.toAdds fun pair body₃ h₃ => ?_
    cases pair with
    | none => exact (Quiet.refl h₃.here).toAdds
    | some pair => exact (arith_quiet Instruction.Plain.upward h₃.here op _ _).toAdds
  | compare span op lhs rhs =>
    rw [Expr.loopFree, Bool.and_eq_true] at hLoop
    rw [expression]
    refine .bind (expression_upward callees lhs hLoop.1 body h) fun left body₁ h₁ => ?_
    refine .bind (expression_upward callees rhs hLoop.2 body₁ h₁.here) fun right body₂ h₂ => ?_
    refine .bind (wordPair_quiet Instruction.Plain.upward h₂.here left right).1.toAdds fun pair body₃ h₃ => ?_
    cases pair with
    | none => exact (Quiet.refl h₃.here).toAdds
    | some pair => exact (compare_quiet Instruction.Plain.upward h₃.here op.predicate _ _).toAdds
  | «variable» span name =>
    rw [expression, readVariable_eq]
    cases body.scope.find? name.text with
    | some slot => exact (load_quiet Instruction.Plain.upward h slot).toAdds
    | none => exact ⟨h, .refl _⟩
  | assign span target value =>
    rw [Expr.loopFree] at hLoop
    rw [expression]
    refine .bind (slotFor_adds Instruction.Plain.upward h target.text) fun slot body₁ h₁ => ?_
    refine .bind (expression_upward callees value hLoop body₁ h₁.here) fun result body₂ h₂ => ?_
    cases result with
    | none => exact (Quiet.refl h₂.here).toAdds
    | some result =>
      refine .bind (toWord_quiet Instruction.Plain.upward h₂.here result).toAdds fun stored body₃ h₃ => ?_
      exact (store_quiet Instruction.Plain.upward h₃.here slot stored).toAdds
  | branch span condition positive negative =>
    simp only [Expr.loopFree, Bool.and_eq_true] at hLoop
    rw [expression_branch]
    refine .bind (expression_upward callees condition hLoop.1.1 body h) fun value body₁ h₁ => ?_
    cases value with
    | none => exact (Quiet.refl h₁.here).toAdds
    | some value =>
      refine .bind (isTruthy_quiet Instruction.Plain.upward h₁.here value).toAdds fun test body₂ h₂ => ?_
      exact conditional_upward h₂.here (arm_upward callees positive hLoop.1.2 _)
        (arm_upward callees negative hLoop.2 _) test
  | loop span initializer condition step inner => cases hLoop
  | call span callee arguments =>
    rw [Expr.loopFree] at hLoop
    rw [expression]
    cases callees callee.text with
    | none => exact ⟨h, .refl _⟩
    | some target =>
      refine .bind (words_upward callees arguments hLoop body h) fun values body₁ h₁ => ?_
      cases values with
      | none => exact (Quiet.refl h₁.here).toAdds
      | some values => exact emitCall_upward h₁.here callee target values

theorem arm_upward (callees : Callees) (es : List Expr) (hLoop : allLoopFree es = true)
    (value : Option Operand) (body : Body) (h : body.Here) :
    body.Adds Upward (arm callees value es body).2 := by
  cases es with
  | nil =>
    rw [arm]
    exact (Quiet.refl h).toAdds
  | cons first rest =>
    rw [allLoopFree, Bool.and_eq_true] at hLoop
    rw [arm]
    refine .bind (expression_upward callees first hLoop.1 body h) fun result body₁ h₁ => ?_
    exact arm_upward callees rest hLoop.2 result body₁ h₁.here

theorem words_upward (callees : Callees) (es : List Expr) (hLoop : allLoopFree es = true) (body : Body)
    (h : body.Here) : body.Adds Upward (words callees es body).2 := by
  cases es with
  | nil =>
    rw [words]
    exact (Quiet.refl h).toAdds
  | cons first rest =>
    rw [allLoopFree, Bool.and_eq_true] at hLoop
    rw [words]
    refine .bind (expression_upward callees first hLoop.1 body h) fun result body₁ h₁ => ?_
    cases result with
    | none =>
      refine .bind (words_upward callees rest hLoop.2 body₁ h₁.here) fun _ body₂ h₂ => ?_
      exact (Quiet.refl h₂.here).toAdds
    | some result =>
      refine .bind (toWord_quiet Instruction.Plain.upward h₁.here result).toAdds fun value body₂ h₂ => ?_
      refine .bind (words_upward callees rest hLoop.2 body₂ h₂.here) fun values body₃ h₃ => ?_
      cases values with
      | none => exact (Quiet.refl h₃.here).toAdds
      | some values => exact (Quiet.refl h₃.here).toAdds

end

theorem definitionBody_upward (callees : Callees) (parameters : List (Name × RegisterId)) {e : Expr}
    (hLoop : e.loopFree = true) (h : body.Here) :
    body.Adds Upward (definitionBody callees parameters e body).2 := by
  refine .bind (bindParameters_adds Instruction.Plain.upward h parameters) fun _ body₁ h₁ => ?_
  refine .bind (expression_upward callees e hLoop body₁ h₁.here) fun value body₂ h₂ => ?_
  cases value with
  | none => exact (Quiet.refl h₂.here).toAdds
  | some value =>
    refine .bind (toWord_quiet Instruction.Plain.upward h₂.here value).toAdds fun result body₃ h₃ => ?_
    exact (ret_quiet Instruction.Plain.upward h₃.here (some result)).toAdds

end Lowering

/-! ## Programs -/

def Assembly.Forward (assembly : Assembly) : Prop := ∀ id f, assembly.get? id = some f → f.Forward

namespace Assembly.Forward

variable {assembly : Assembly} (h : assembly.Forward)
include h

theorem put (id : FunctionId) {f : Function} (hf : f.Forward) : (assembly.put id f).Forward := by
  intro key g hKey
  rw [get?_put] at hKey
  split at hKey
  · cases hKey
    exact hf
  · exact h key g hKey

theorem declare (name : String) (signature : Signature) (linkage : Linkage) :
    (assembly.declare name signature linkage).Forward :=
  h.put _ (Function.forward_of_isDeclaration rfl)

theorem discard (id : FunctionId) (f : Function) : (assembly.discard id f).Forward := by
  intro key g hKey
  rw [get?_discard] at hKey
  split at hKey
  · split at hKey
    · cases hKey
      exact Function.forward_of_isDeclaration rfl
    · cases hKey
  · exact h key g hKey

end Assembly.Forward

namespace Lowering

theorem start_forward (module : String) : (start module).assembly.Forward := by
  intro id f hFound
  rw [get?_start] at hFound
  split at hFound
  · cases hFound
    exact Function.forward_of_isDeclaration rfl
  · split at hFound
    · cases hFound
      rw [Function.forward_iff]
      intro id instruction hMem
      rw [emptyEntry, Function.codeAt_newBlock, Function.codeAt_of_size_le _ (Nat.zero_le _)] at hMem
      cases hMem
    · cases hFound

theorem forward_opened (name : String) (arity : Nat) : (opened name arity).draft.function.Forward := by
  rw [Function.forward_iff]
  intro id instruction hMem
  rw [opened, Function.codeAt_newBlock, Function.codeAt_of_size_le _ (Nat.zero_le _)] at hMem
  cases hMem

variable {width : Nat} {state : Lowering}

/-- The step lemma: an item without loops keeps all functions forward. -/
theorem item_forward (hState : state.Orderly width) (h : state.assembly.Forward) {item : Item}
    (hLoop : item.loopFree = true) : (state.item item).1.assembly.Forward := by
  have hPrototype : ∀ {head id declared events}, state.prototype head = .ok (id, declared, events) →
      declared.assembly.Forward := by
    intro head id declared events hOk
    obtain ⟨-, rfl | rfl⟩ := prototype_cases hOk
    · exact h
    · exact h.declare _ _ _
  cases item with
  | declaration span head =>
    rw [Lowering.item]
    split
    · exact h
    · rename_i hOk
      exact hPrototype hOk
  | definition span head e =>
    rw [Lowering.item]
    rcases hState.valid.definition_cases head e with
      ⟨problem, -, hEq⟩ | ⟨id, declared, events, hOk, ⟨final, -, hEq⟩ | ⟨value, final, hFinal, hEq⟩⟩
    · rw [hEq]
      exact h
    · rw [hEq]
      exact (hPrototype hOk).discard _ _
    · have hAdds := definitionBody_upward declared.callees (head.parameters.zip
        (Function.bare head.name.text (.ofArity head.parameters.length) .external).parameters) hLoop
        (opened_ready (declared.context width) head.name.text head.parameters.length).draft.block_lt
      rw [hEq]
      rw [show definitionBody _ _ _ _ = _ from hFinal] at hAdds
      exact (hPrototype hOk).put _ ((forward_opened _ _).adds hAdds.code)
  | expression e =>
    obtain ⟨f, plan, hGet, -, -, -, hReady, -⟩ := hState.valid.entry
    rw [Lowering.item, topLevel, hGet]
    have hAdds := expression_upward state.callees e hLoop _ hReady.draft.block_lt
    exact h.put _ ((h _ f hGet).adds hAdds.code)

/-- The run lemma: so does a whole program. -/
theorem items_forward (program : List Item) (hState : state.Orderly width) (h : state.assembly.Forward)
    (hLoop : ∀ item ∈ program, item.loopFree = true) (hWidth : ∀ item ∈ program, item.widest ≤ width) :
    (state.items program).1.assembly.Forward := by
  induction program generalizing state with
  | nil => exact h
  | cons first rest ih =>
    rw [List.forall_mem_cons] at hLoop hWidth
    exact ih (hState.item hWidth.1).orderly (item_forward hState h hLoop.1) hLoop.2 hWidth.2

theorem finish_forward (hState : state.Orderly width) (h : state.assembly.Forward) {id : FunctionId}
    {f : Function} (hFound : state.finish.get? id = some f) : f.Forward := by
  obtain ⟨entry, plan, hGet, -, -, -, hReady, -⟩ := hState.valid.entry
  have hAppend : entry.Adds Upward (entry.append state.insertion (.ret none)) :=
    .append _ hReady.draft.block_lt rfl (Instruction.Plain.upward _ _ ⟨rfl, fun _ => rfl⟩)
  rw [finish, hGet] at hFound
  exact h.put state.entry ((h _ entry hGet).adds hAppend) id f hFound

end Lowering

/-- Programs without loops always stop. Control only goes to blocks with higher ids in all their functions, and
whatever function is called with whatever arguments, by whatever host and under whatever limit, the
machine comes to a result or an error, and never to a fault, within a number of steps that is known
beforehand. -/
theorem lowerProgram_stops (module : String) (program : List Item)
    (hLoop : ∀ item ∈ program, item.loopFree = true) :
    (∀ id f, (lowerProgram module program).1.get? id = some f → ∀ source block,
      f.blocks.get? source = some block → ∀ instruction ∈ block.code, ∀ target ∈ instruction.targets,
        source.index < target.index) ∧
    ∀ {σ : Type} (host : Host σ) (limit : Nat) (name : String) (arguments : List Word) (state : σ),
      ∃ result after, Machine.call host (lowerProgram module program).1 limit
        (((lowerProgram module program).1.codeSize + 1) ^ max limit 1) name arguments state =
          .halted result after ∧ result ≠ .error .fault := by
  have hWidth : ∀ item ∈ program, item.widest ≤ widestItem program :=
    fun item hItem => widest_le_widestItem hItem
  have hStart := Lowering.start_orderly (widestItem program) module
  have hState := (hStart.items program hWidth).orderly
  have hItems := Lowering.items_forward program hStart (Lowering.start_forward module) hLoop hWidth
  have hForward : ∀ id f, (lowerProgram module program).1.get? id = some f → f.Forward :=
    fun id f hFound => Lowering.finish_forward hState hItems hFound
  have hLowered := lowerProgram_lowered module program
  have hValues := hLowered.sorted.mem_values_iff
  refine ⟨hForward, ?_⟩
  have hEach : ∀ f ∈ (lowerProgram module program).1.functions.values, f.Forward := by
    intro f hMem
    obtain ⟨id, hFound⟩ := (hValues f).mp hMem
    exact hForward id f hFound
  have hParameters : ∀ f ∈ (lowerProgram module program).1.functions.values,
      ∀ id ∈ f.parameters, id.index < f.registers.size := by
    intro f hMem
    obtain ⟨id, hFound⟩ := (hValues f).mp hMem
    exact hLowered.parameters_lt hFound
  intro σ host limit name arguments state
  obtain ⟨result, after, hHalted⟩ := Machine.call_halts hEach host limit name arguments state
  refine ⟨result, after, hHalted, ?_⟩
  have hSecure := Machine.advance_secure hLowered.wellFormed host limit
    (((lowerProgram module program).1.codeSize + 1) ^ max limit 1)
    (Machine.start_secure hLowered.wellFormed host name arguments state)
  rw [← Machine.call, hHalted] at hSecure
  exact hSecure hParameters

/-- A function that calls itself as long as its argument is not 0, and a call of it. -/
def runaway : List Item :=
  let span : Span := ⟨0, 0⟩
  let name : String → Name := fun text => ⟨text, span⟩
  let n := Expr.variable span (name "n")
  [.definition span ⟨span, name "f", [name "n"]⟩
      (.branch span n [.call span (name "f") [.binary span .add n (.int span 1)]] []),
    .expression (.call span (name "f") [.int span 1])]

theorem lowerProgram_stops_runaway :
    (∀ item ∈ runaway, item.loopFree = true) ∧
      ∃ after, Machine.call standardHost (lowerProgram "m" runaway).1 3
        (((lowerProgram "m" runaway).1.codeSize + 1) ^ max 3 1) entryName [] {} =
          .halted (.error (.error (.callDepthExceeded 3))) after := by
  have hLoop : ∀ item ∈ runaway, item.loopFree = true := by decide
  obtain ⟨result, after, hHalted, -⟩ := (lowerProgram_stops "m" runaway hLoop).2 standardHost 3 entryName [] {}
  have hCut : (match Machine.call standardHost (lowerProgram "m" runaway).1 3 40 entryName [] {} with
      | .halted (.error (.error error)) _ => decide (error = .callDepthExceeded 3)
      | _ => false) = true := by
    decide +kernel
  cases hCall : Machine.call standardHost (lowerProgram "m" runaway).1 3 40 entryName [] {} with
  | running frame callers sink =>
    rw [hCall] at hCut
    cases hCut
  | halted result' after' =>
    rw [hCall] at hCut
    rw [Machine.call] at hHalted hCall
    obtain ⟨rfl, rfl⟩ := Machine.halted_unique hHalted hCall
    split at hCut
    · rename_i error sink hEq
      cases hEq
      rw [of_decide_eq_true hCut] at hHalted
      exact ⟨hLoop, after, hHalted⟩
    · cases hCut

end Slate
