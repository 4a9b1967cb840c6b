import Mathlib.Logic.Relation
import Slate.Proofs.Lowering.Additions

/-! # Lowering as a sequence of edits

All that lowering does to a function is to add blocks, slots and instructions, one at a time. `Edit` lists these
edits with what is known of each, and `Edits` is any number of them. What every edit keeps is kept by the
lowering of whole expressions and bodies.
-/

namespace Slate
set_option autoImplicit false

/-- The type of the register that an instruction writes, where the instruction decides it. -/
def Instruction.resultType? : Instruction → Option Ty
  | .load .. | .arith .. | .call .. => some .i32
  | .compare .. => some .i1
  | .extend _ _ ty => some ty
  | .alloca .. | .store .. | .phi .. | .jump .. | .branch .. | .ret .. => none

mutual

/-- The names that an expression assigns. -/
def Expr.targets : Expr → List String
  | .int .. | .variable .. => []
  | .binary _ _ lhs rhs | .compare _ _ lhs rhs => lhs.targets ++ rhs.targets
  | .assign _ target value => target.text :: value.targets
  | .branch _ condition positive negative =>
    condition.targets ++ allTargets positive ++ allTargets negative
  | .loop _ initializer condition step body =>
    initializer.targets ++ condition.targets ++ step.targets ++ allTargets body
  | .call _ _ arguments => allTargets arguments

def allTargets : List Expr → List String
  | [] => []
  | first :: rest => first.targets ++ allTargets rest

end

namespace Lowering

def blockLabels : List String := ["entry", "then", "else", "ifcont", "cond", "loop", "afterloop"]

abbrev Scope := NameTable SlotId

/-- One edit of a function and of the slots of its variables. The names that may be assigned are given. -/
inductive Edit (allowed : String → Prop) : Function × Scope → Function × Scope → Prop
  | block (f : Function) (scope : Scope) {label : String} (known : label ∈ blockLabels) :
      Edit allowed (f, scope) (f.newBlock label, scope)
  | slot (f : Function) (scope : Scope) {name : String} (allows : allowed name)
      (fresh : scope.find? name = none) :
      Edit allowed (f, scope) (f.newSlot ⟨0⟩ { ty := .i32, name }, scope.insert name f.slots.nextId)
  | plain (f : Function) (scope : Scope) (at_ : BlockId) {instruction : Instruction}
      (destination : instruction.destination? = none) (alloca : instruction.isAlloca = false) :
      Edit allowed (f, scope) (f.add at_ instruction, scope)
  | result (f : Function) (scope : Scope) (at_ : BlockId) {ty : Ty} {instruction : Instruction}
      (destination : instruction.destination? = some f.registers.nextId)
      (typed : ∀ expected, instruction.resultType? = some expected → ty = expected) :
      Edit allowed (f, scope) ((f.newRegister ty).add at_ instruction, scope)

def Edits (allowed : String → Prop) : Function × Scope → Function × Scope → Prop :=
  Relation.ReflTransGen (Edit allowed)

/-- What every edit keeps, any number of edits keeps. -/
theorem Edits.invariant {allowed : String → Prop} {P : Function × Scope → Prop}
    (hStep : ∀ before after, Edit allowed before after → P before → P after)
    {before after : Function × Scope} (h : Edits allowed before after) (hBefore : P before) : P after := by
  induction h with
  | refl => exact hBefore
  | tail _ hEdit ih => exact hStep _ _ hEdit ih

def Body.view (body : Body) : Function × Scope := (body.draft.function, body.scope)

/-- An action edits the function step by step. -/
def Stepwise {α : Type} (allowed : String → Prop) (action : Lower α) : Prop :=
  ∀ body : Body, Edits allowed body.view (action body).2.view

namespace Stepwise

variable {α β : Type} {allowed : String → Prop}

theorem of_view {action : Lower α} (h : ∀ body, (action body).2.view = body.view) :
    Stepwise allowed action := by
  intro body
  rw [h]
  exact .refl

theorem pure (a : α) : Stepwise allowed (Pure.pure a : Lower α) := of_view fun _ => rfl

theorem bind {action : Lower α} {next : α → Lower β} (h : Stepwise allowed action)
    (hNext : ∀ a, Stepwise allowed (next a)) : Stepwise allowed (action >>= next) :=
  fun body => (h body).trans (hNext _ _)

theorem map {action : Lower α} (f : α → β) (h : Stepwise allowed action) : Stepwise allowed (f <$> action) :=
  h

theorem report (complaint : Complaint) (span : Span) : Stepwise allowed (Lowering.report complaint span) :=
  of_view fun _ => rfl

theorem operandType? (value : Operand) : Stepwise allowed (draft (Draft.operandType? value)) :=
  of_view fun _ => rfl

/-- An instruction without a result, with the edges that come with it. -/
theorem add {action : StateM Draft Unit} {instruction : Instruction}
    (hDestination : instruction.destination? = none) (hAlloca : instruction.isAlloca = false)
    (h : ∀ d, (action d).2.function = d.function.add d.block instruction) : Stepwise allowed (draft action) := by
  intro body
  have hEdit : Edit allowed _ _ :=
    .plain body.draft.function body.scope body.draft.block hDestination hAlloca
  rw [← h] at hEdit
  exact .single hEdit

theorem store (slot : SlotId) (value : Operand) : Stepwise allowed (draft (Draft.store slot value)) :=
  add rfl rfl fun d => (d.function.add_eq_append d.block rfl).symm

theorem ret (value : Option Operand) : Stepwise allowed (draft (Draft.ret value)) :=
  add rfl rfl fun d => (d.function.add_eq_append d.block rfl).symm

theorem emitResult {ty : Ty} {instruction : RegisterId → Instruction}
    (hDestination : ∀ id, (instruction id).destination? = some id)
    (hTargets : ∀ id, (instruction id).targets = [])
    (hType : ∀ id expected, (instruction id).resultType? = some expected → ty = expected) :
    Stepwise allowed (draft (Draft.emitResult ty instruction)) := by
  intro body
  have hEdit : Edit allowed _ _ :=
    .result body.draft.function body.scope body.draft.block (hDestination _) (hType _)
  rw [Function.add_eq_append _ _ (hTargets _)] at hEdit
  exact .single hEdit

theorem arith (op : Arith) (lhs rhs : Operand) : Stepwise allowed (draft (Draft.arith op lhs rhs)) :=
  emitResult (fun _ => rfl) (fun _ => rfl) fun _ _ h => Option.some.inj h

theorem compare (predicate : Predicate) (lhs rhs : Operand) :
    Stepwise allowed (draft (Draft.compare predicate lhs rhs)) :=
  emitResult (fun _ => rfl) (fun _ => rfl) fun _ _ h => Option.some.inj h

theorem extend (value : Operand) (ty : Ty) : Stepwise allowed (draft (Draft.extend value ty)) :=
  emitResult (fun _ => rfl) (fun _ => rfl) fun _ _ h => Option.some.inj h

theorem load (slot : SlotId) : Stepwise allowed (draft (Draft.load .i32 slot)) :=
  emitResult (fun _ => rfl) (fun _ => rfl) fun _ _ h => Option.some.inj h

theorem phi (ty : Ty) (incoming : List (BlockId × Operand)) : Stepwise allowed (draft (Draft.phi ty incoming)) :=
  emitResult (fun _ => rfl) (fun _ => rfl) fun _ _ h => by cases h

theorem call (callee : FunctionId) {result : Ty} (hResult : result ≠ .i1) (arguments : List Operand) :
    Stepwise allowed (draft (Draft.call callee result arguments)) := by
  intro body
  rw [Draft.call]
  split
  · have hEdit : Edit allowed _ _ := .plain body.draft.function body.scope body.draft.block
      (show (Instruction.call callee arguments none).destination? = none from rfl) rfl
    rw [Function.add_eq_append _ _ rfl] at hEdit
    exact .single hEdit
  · rename_i hVoid
    have hWord : result = .i32 := by
      cases result with
      | i1 => exact absurd rfl hResult
      | i32 => rfl
      | void => exact absurd rfl hVoid
    have hEmit : Stepwise allowed (draft (Draft.emitResult result fun destination =>
        .call callee arguments (some destination))) :=
      emitResult (fun _ => rfl) (fun _ => rfl) fun _ _ h => hWord.trans (Option.some.inj h)
    exact hEmit body

theorem toWord (value : Operand) : Stepwise allowed (Lowering.toWord value) := by
  intro body
  rw [Lowering.toWord, isBit_bind]
  split
  · exact extend value .i32 body
  · exact .refl

theorem isTruthy (value : Operand) : Stepwise allowed (Lowering.isTruthy value) := by
  intro body
  rw [Lowering.isTruthy, isBit_bind]
  split
  · exact compare _ _ _ body
  · exact compare _ _ _ body

theorem isTrue (value : Operand) : Stepwise allowed (Lowering.isTrue value) := by
  intro body
  rw [Lowering.isTrue, isBit_bind]
  split
  · exact compare _ _ _ body
  · exact compare _ _ _ body

theorem slotFor {name : String} (h : allowed name) : Stepwise allowed (Lowering.slotFor name) := by
  intro body
  rw [slotFor_eq]
  cases hFound : body.scope.find? name with
  | some slot => exact .refl
  | none => exact .single (.slot body.draft.function body.scope h hFound)

theorem readVariable (name : Name) : Stepwise allowed (Lowering.readVariable name) := by
  intro body
  rw [readVariable_eq]
  cases body.scope.find? name.text with
  | some slot => exact load slot body
  | none => exact .refl

theorem wordPair (lhs rhs : Option Operand) : Stepwise allowed (Lowering.wordPair lhs rhs) := by
  cases lhs with
  | none => exact .pure none
  | some left =>
    refine .bind (toWord left) fun first => ?_
    cases rhs with
    | none => exact .pure none
    | some right => exact .bind (toWord right) fun second => .pure _

theorem emitCall (name : Name) {callee : Callee} (hResult : callee.signature.result ≠ .i1)
    (arguments : List Operand) : Stepwise allowed (Lowering.emitCall name callee arguments) := by
  rw [emitCall_eq]
  split
  · exact call callee.id hResult _
  · exact .bind (report _ _) fun _ => .pure none

/-! ## Control flow -/

theorem get : Stepwise allowed (MonadState.get : Lower Body) := of_view fun _ => rfl

theorem goTo (block : BlockId) : Stepwise allowed (modify (Body.goTo · block) : Lower Unit) :=
  of_view fun _ => rfl

theorem leave_edits (body : Body) {terminator : Instruction} (hDestination : terminator.destination? = none)
    (hAlloca : terminator.isAlloca = false) (next : BlockId) :
    Edits allowed body.view (body.leave terminator next).view :=
  .single (.plain body.draft.function body.scope body.draft.block hDestination hAlloca)

theorem newBlock_edits (body : Body) {label : String} (h : label ∈ blockLabels) :
    Edits allowed body.view (body.newBlock label).view :=
  .single (.block body.draft.function body.scope h)

theorem unify (x y : BlockId) (first second : Operand) : Stepwise allowed (Lowering.unify x y first second) := by
  intro body
  rw [unify_eq]
  split
  · exact .refl
  · have hFirst : Edits allowed body.view (Lowering.toWord first (body.goTo x)).2.view :=
      toWord first (body.goTo x)
    exact hFirst.trans (toWord second ((Lowering.toWord first (body.goTo x)).2.goTo y))

theorem incoming (x y : BlockId) (first second : Option Operand) :
    Stepwise allowed (Lowering.incoming x y first second) := by
  cases first with
  | none => exact .pure none
  | some first =>
    cases second with
    | none => exact .pure none
    | some second => exact .map some (unify x y first second)

theorem conclude (x y : BlockId) (values : Option (Operand × Operand)) :
    Stepwise allowed (Lowering.conclude x y values) := by
  cases values with
  | none => exact .pure none
  | some pair => exact .bind (operandType? pair.1) fun _ => .map some (phi _ _)

theorem join_edits (body : Body) (x y target : BlockId) :
    Edits allowed body.view (body.join x y target).view := by
  have hFirst : Edit allowed body.view (body.draft.function.add x (.jump target), body.scope) :=
    .plain _ _ x rfl rfl
  have hSecond : Edit allowed (body.draft.function.add x (.jump target), body.scope)
      ((body.draft.function.add x (.jump target)).add y (.jump target), body.scope) :=
    .plain _ _ y rfl rfl
  rw [Body.view, Body.view, Body.draft_join, Body.scope_join]
  exact .tail (.single hFirst) hSecond

theorem merge (x y : BlockId) (first second : Option Operand) :
    Stepwise allowed (Lowering.merge x y first second) := by
  intro body
  rw [merge_eq]
  have hBlock : Edits allowed body.view (body.newBlock "ifcont").view := newBlock_edits body (by decide)
  have hIncoming := hBlock.trans (incoming x y first second (body.newBlock "ifcont"))
  change Edits allowed body.view (Lowering.conclude x y
    (Lowering.incoming x y first second (body.newBlock "ifcont")).1
    ((Lowering.incoming x y first second (body.newBlock "ifcont")).2.join x y _)).2.view
  generalize Lowering.incoming x y first second (body.newBlock "ifcont") = met at hIncoming ⊢
  exact (hIncoming.trans (join_edits met.2 x y _)).trans (conclude x y met.1 _)

theorem conditional {positive negative : Lower (Option Operand)} (hPositive : Stepwise allowed positive)
    (hNegative : Stepwise allowed negative) (test : Operand) :
    Stepwise allowed (Lowering.conditional positive negative test) := by
  have hFork : Stepwise allowed (modify (Body.fork · test) : Lower Unit) := by
    intro body
    have hThen : Edits allowed body.view (body.newBlock "then").view := newBlock_edits body (by decide)
    have hElse := hThen.trans (newBlock_edits (body.newBlock "then") (by decide : "else" ∈ blockLabels))
    exact hElse.trans (leave_edits _ rfl rfl _)
  refine .bind get fun _ => .bind hFork fun _ => .bind hPositive fun thenValue => .bind get fun _ => ?_
  exact .bind (goTo _) fun _ => .bind hNegative fun elseValue => .bind get fun _ => merge _ _ _ _

theorem leaveTest (inside after : BlockId) (value : Option Operand) :
    Stepwise allowed (Lowering.leaveTest inside after value) := by
  cases value with
  | none => exact fun body => leave_edits body rfl rfl _
  | some value => exact .bind (isTrue value) fun test body => leave_edits body rfl rfl _

theorem repeated {condition : Lower (Option Operand)} {inner : Lower Unit} (hCondition : Stepwise allowed condition)
    (hInner : Stepwise allowed inner) : Stepwise allowed (Lowering.repeated condition inner) := by
  intro body
  have hOpen : Edits allowed body.view body.openLoop.view := by
    have hCond : Edits allowed body.view (body.newBlock "cond").view := newBlock_edits body (by decide)
    have hLoop := hCond.trans (newBlock_edits (body.newBlock "cond") (by decide : "loop" ∈ blockLabels))
    have hAfter := hLoop.trans (newBlock_edits _ (by decide : "afterloop" ∈ blockLabels))
    exact hAfter.trans (leave_edits _ rfl rfl _)
  have hRest : ∀ inside after back, Stepwise allowed (do
      Lowering.leaveTest inside after (← condition)
      inner
      modify (Body.leave · (.jump back) after)
      return (none : Option Operand)) := by
    intro inside after back
    refine .bind hCondition fun value => .bind (leaveTest inside after value) fun _ => .bind hInner fun _ => ?_
    exact fun body => leave_edits body rfl rfl _
  exact hOpen.trans (hRest _ _ _ body.openLoop)

end Stepwise

/-! ## Expressions -/

/-- Functions that give a word or nothing. -/
def Callees.GiveWords (callees : Callees) : Prop :=
  ∀ name callee, callees name = some callee → callee.signature.result ≠ .i1

section Expressions

variable {allowed : String → Prop} {callees : Callees}

mutual

/-- Lowering an expression edits the function step by step. The proof is by induction on the expression. -/
theorem expression_stepwise (hCallees : callees.GiveWords) (e : Expr) (h : ∀ name ∈ e.targets, allowed name) :
    Stepwise allowed (expression callees e) := by
  cases e with
  | int span value =>
    rw [expression]
    exact .pure _
  | binary span op lhs rhs =>
    rw [expression]
    rw [Expr.targets, List.forall_mem_append] at h
    refine .bind (expression_stepwise hCallees lhs h.1) fun left => .bind (expression_stepwise hCallees rhs h.2) fun right => ?_
    refine .bind (.wordPair left right) fun pair => ?_
    cases pair with
    | none => exact .pure none
    | some pair => exact .map some (.arith op _ _)
  | compare span op lhs rhs =>
    rw [expression]
    rw [Expr.targets, List.forall_mem_append] at h
    refine .bind (expression_stepwise hCallees lhs h.1) fun left => .bind (expression_stepwise hCallees rhs h.2) fun right => ?_
    refine .bind (.wordPair left right) fun pair => ?_
    cases pair with
    | none => exact .pure none
    | some pair => exact .map some (.compare op.predicate _ _)
  | «variable» span name =>
    rw [expression]
    exact .readVariable name
  | assign span target value =>
    rw [expression]
    rw [Expr.targets, List.forall_mem_cons] at h
    refine .bind (.slotFor h.1) fun slot => .bind (expression_stepwise hCallees value h.2) fun result => ?_
    cases result with
    | none => exact .pure none
    | some result => exact .bind (.toWord result) fun stored => .bind (.store slot stored) fun _ => .pure _
  | branch span condition positive negative =>
    rw [expression_branch]
    rw [Expr.targets, List.forall_mem_append, List.forall_mem_append] at h
    refine .bind (expression_stepwise hCallees condition h.1.1) fun value => ?_
    cases value with
    | none => exact .pure none
    | some value =>
      exact .bind (.isTruthy value)
        (.conditional (arm_stepwise hCallees positive h.1.2 _) (arm_stepwise hCallees negative h.2 _))
  | loop span initializer condition step inner =>
    rw [expression_loop]
    simp only [Expr.targets, List.forall_mem_append] at h
    obtain ⟨⟨⟨hInitializer, hCondition⟩, hStep⟩, hInner⟩ := h
    refine .bind (expression_stepwise hCallees initializer hInitializer) fun _ => ?_
    exact .repeated (expression_stepwise hCallees condition hCondition)
      (.bind (arm_stepwise hCallees inner hInner none) fun _ => .bind (expression_stepwise hCallees step hStep) fun _ => .pure ())
  | call span callee arguments =>
    rw [expression]
    rw [Expr.targets] at h
    cases hCallee : callees callee.text with
    | none => exact .bind (.report _ _) fun _ => .pure none
    | some target =>
      refine .bind (words_stepwise hCallees arguments h) fun values => ?_
      cases values with
      | none => exact .pure none
      | some values => exact .emitCall callee (hCallees _ _ hCallee) values

theorem arm_stepwise (hCallees : callees.GiveWords) (es : List Expr) (h : ∀ name ∈ allTargets es, allowed name)
    (value : Option Operand) : Stepwise allowed (arm callees value es) := by
  cases es with
  | nil =>
    rw [arm]
    exact .pure value
  | cons first rest =>
    rw [arm]
    rw [allTargets, List.forall_mem_append] at h
    exact .bind (expression_stepwise hCallees first h.1) fun result => arm_stepwise hCallees rest h.2 result

theorem words_stepwise (hCallees : callees.GiveWords) (es : List Expr)
    (h : ∀ name ∈ allTargets es, allowed name) : Stepwise allowed (words callees es) := by
  cases es with
  | nil =>
    rw [words]
    exact .pure _
  | cons first rest =>
    rw [words]
    rw [allTargets, List.forall_mem_append] at h
    refine .bind (expression_stepwise hCallees first h.1) fun result => ?_
    cases result with
    | none => exact .bind (words_stepwise hCallees rest h.2) fun _ => .pure none
    | some result =>
      refine .bind (.toWord result) fun value => .bind (words_stepwise hCallees rest h.2) fun values => ?_
      cases values with
      | none => exact .pure none
      | some values => exact .pure _

end

end Expressions

/-! ## Bodies -/

section Bodies

variable {allowed : String → Prop}

theorem bindParameters_edits (parameters : List (Name × RegisterId)) (body : Body)
    (hDistinct : (parameters.map fun parameter => parameter.1.text).Nodup)
    (hFresh : ∀ parameter ∈ parameters, body.scope.find? parameter.1.text = none)
    (hAllowed : ∀ parameter ∈ parameters, allowed parameter.1.text) :
    Edits allowed body.view (bindParameters parameters body).2.view := by
  induction parameters generalizing body with
  | nil => exact .refl
  | cons first rest ih =>
    rw [List.map_cons, List.nodup_cons] at hDistinct
    rw [List.forall_mem_cons] at hFresh hAllowed
    have hBind : Edits allowed body.view (body.bind first.1.text first.2).view := by
      have hSlot : Edit allowed body.view _ :=
        .slot body.draft.function body.scope hAllowed.1 hFresh.1
      have hStore := (Relation.ReflTransGen.single hSlot).tail (.plain _ _ body.draft.block
        (show (Instruction.store body.draft.function.slots.nextId (.register first.2)).destination? = none
          from rfl) rfl)
      rw [Function.add_eq_append _ _ rfl] at hStore
      exact hStore
    refine hBind.trans (ih _ hDistinct.2 ?_ hAllowed.2)
    intro parameter hMem
    have hNe : parameter.1.text ≠ first.1.text := fun hEq =>
      hDistinct.1 (List.mem_map.mpr ⟨parameter, hMem, hEq⟩)
    exact (NameTable.find?_insert _ _ _ _).trans ((if_neg hNe).trans (hFresh.2 parameter hMem))

theorem definitionBody_edits {callees : Callees} (hCallees : callees.GiveWords)
    (parameters : List (Name × RegisterId)) {e : Expr} {body : Body}
    (hDistinct : (parameters.map fun parameter => parameter.1.text).Nodup)
    (hFresh : ∀ parameter ∈ parameters, body.scope.find? parameter.1.text = none)
    (hAllowed : ∀ parameter ∈ parameters, allowed parameter.1.text)
    (hTargets : ∀ name ∈ e.targets, allowed name) :
    Edits allowed body.view (definitionBody callees parameters e body).2.view := by
  -- What follows the parameters is a body without any.
  have hRest : Stepwise allowed (definitionBody callees [] e) := by
    refine .bind (.pure ()) fun _ => .bind (expression_stepwise hCallees e hTargets) fun value => ?_
    cases value with
    | none => exact .pure none
    | some value => exact .bind (.toWord value) fun result => .bind (.ret (some result)) fun _ => .pure _
  exact (bindParameters_edits parameters body hDistinct hFresh hAllowed).trans (hRest _)

end Bodies
end Lowering
end Slate
