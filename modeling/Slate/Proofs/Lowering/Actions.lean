import Slate.Proofs.Flow

/-! # What lowering actions do

An action takes a ready body to a ready body (`Body.Moves`) and gives a value, if any, that is written at the
end of the block it arrives in. Here are the actions that stay in a block, and the one that joins two
arms of a conditional.
-/

namespace Slate.Lowering
set_option autoImplicit false

open Draft (Usable Flow)

variable {context : Context} {plan plan₁ plan₂ : Plan}

namespace Body

structure Ready (context : Context) (plan : Plan) (body : Body) : Prop where
  draft : body.draft.Ready context plan
  scope : ∀ name slot, body.scope.find? name = some slot →
    body.draft.function.slots.get? slot = some { ty := .i32, name }

structure Moves (context : Context) (plan : Plan) (body : Body) (plan' : Plan)
    (body' : Body) : Prop where
  ready : body'.Ready context plan'
  flow : Flow plan body.draft plan' body'.draft
  scope : ∀ name slot, body.scope.find? name = some slot → body'.scope.find? name = some slot
  diagnostics : body.diagnostics <+: body'.diagnostics

/-- A move to a later place in the same block that assigns no new variable. -/
structure Stays (context : Context) (plan : Plan) (body body' : Body) : Prop
    extends Moves context plan body plan body' where
  block_eq : body'.draft.block = body.draft.block
  scope_eq : body'.scope = body.scope
  diagnostics_eq : body'.diagnostics = body.diagnostics
  size_eq : body'.draft.function.blocks.size = body.draft.function.blocks.size

/-- The body continued in another block. -/
def goTo (body : Body) (block : BlockId) : Body :=
  ⟨⟨body.draft.function, block⟩, body.scope, body.diagnostics⟩

def withFunction (body : Body) (f : Function) : Body :=
  ⟨⟨f, body.draft.block⟩, body.scope, body.diagnostics⟩

variable {body body₁ body₂ : Body}

theorem Ready.goTo (h : body.Ready context plan) {block : BlockId} (hBlock : block ∈ plan.frontier) :
    (body.goTo block).Ready context plan :=
  ⟨h.draft.moveTo hBlock, h.scope⟩

theorem Ready.withFunction (h : body.Ready context plan) {f : Function}
    (hReady : ({ body.draft with function := f } : Draft).Ready context plan₁)
    (hGrows : body.draft.function.Grows f) :
    (body.withFunction f).Ready context plan₁ where
  draft := hReady
  scope name slot hSlot := hGrows.slots _ _ (h.scope name slot hSlot)

theorem Moves.refl (h : body.Ready context plan) : Moves context plan body plan body where
  ready := h
  flow := .refl h.draft
  scope _ _ hSlot := hSlot
  diagnostics := List.prefix_rfl

theorem Moves.trans (h : body.Ready context plan) (hFirst : Moves context plan body plan₁ body₁)
    (hSecond : Moves context plan₁ body₁ plan₂ body₂) :
    Moves context plan body plan₂ body₂ where
  ready := hSecond.ready
  flow := hFirst.flow.trans h.draft hSecond.flow
  scope name slot hSlot := hSecond.scope name slot (hFirst.scope name slot hSlot)
  diagnostics := hFirst.diagnostics.trans hSecond.diagnostics

theorem Stays.refl (h : body.Ready context plan) : Stays context plan body body :=
  { Moves.refl h with block_eq := rfl, scope_eq := rfl, diagnostics_eq := rfl, size_eq := rfl }

theorem Stays.withFunction (h : body.Ready context plan) {f : Function}
    (hReady : ({ body.draft with function := f } : Draft).Ready context plan)
    (hFlow : Flow plan body.draft plan { body.draft with function := f })
    (hSize : f.blocks.size = body.draft.function.blocks.size) :
    Stays context plan body (body.withFunction f) where
  ready := h.withFunction hReady hFlow.extends_.grows
  flow := hFlow
  scope _ _ hSlot := hSlot
  diagnostics := List.prefix_rfl
  block_eq := rfl
  scope_eq := rfl
  diagnostics_eq := rfl
  size_eq := hSize

end Body

open Body (Moves Stays)

/-- What an action moves a body to, and what it gives. -/
def Leads {α : Type} (context : Context) (plan : Plan) (body : Body)
    (action : Lower α) (post : Plan → Body → α → Prop) : Prop :=
  ∃ plan', Moves context plan body plan' (action body).2 ∧
    post plan' (action body).2 (action body).1

namespace Leads

variable {α β : Type} {body : Body}

theorem pure (h : body.Ready context plan) {post : Plan → Body → α → Prop} {value : α}
    (hPost : post plan body value) : Leads context plan body (pure value) post :=
  ⟨plan, .refl h, hPost⟩

theorem bind (h : body.Ready context plan) {action : Lower α} {next : α → Lower β}
    {post : Plan → Body → α → Prop} {post' : Plan → Body → β → Prop}
    (hAction : Leads context plan body action post)
    (hNext : ∀ plan' body' value, Moves context plan body plan' body' → post plan' body' value →
      Leads context plan' body' (next value) post') :
    Leads context plan body (action >>= next) post' := by
  obtain ⟨plan₁, hMoves, hPost⟩ := hAction
  obtain ⟨plan₂, hMoves', hPost'⟩ := hNext _ _ _ hMoves hPost
  exact ⟨plan₂, hMoves.trans h hMoves', hPost'⟩

end Leads

/-- A value, if there is one, can be used. -/
def Valued (plan : Plan) (body : Body) (value : Option Operand) : Prop :=
  ∀ operand, value = some operand → ∃ ty, Usable plan body.draft operand ty

theorem Valued.newBlock {body : Body} {at_ : BlockId} {value : Option Operand}
    (hValue : Valued plan (body.goTo at_) value) (h : body.Ready context plan)
    (hAt : at_ ∈ plan.frontier) (label : String) (written : RegisterId → Prop) :
    Valued (plan.add body.draft.function.blocks.nextId written)
      ((body.withFunction (body.draft.function.newBlock label)).goTo at_) value := by
  intro operand hOperand
  obtain ⟨ty, hUsable⟩ := hValue operand hOperand
  exact ⟨ty, hUsable.extends_ (h.draft.staged.known at_ hAt) (.newBlock at_ plan _ label written)⟩

theorem leads_some {body : Body} {action : Lower Operand} {ty : Ty}
    (h : Stays context plan body (action body).2 ∧
      Usable plan (action body).2.draft (action body).1 ty) :
    Leads context plan body (action >>= fun value => pure (some value)) Valued := by
  refine ⟨plan, h.1.toMoves, fun operand hOperand => ?_⟩
  cases hOperand
  exact ⟨ty, h.2⟩

section Straight

variable {body : Body} (h : body.Ready context plan)
include h

theorem report_leads (complaint : Complaint) (span : Span) :
    Leads context plan body (report complaint span) fun _ _ _ => True :=
  ⟨plan, { Moves.refl h with
    ready := ⟨h.draft, h.scope⟩
    diagnostics := List.prefix_append _ _ }, trivial⟩

theorem emitResult_stays {ty : Ty} (hTy : ty ≠ .void) (instruction : RegisterId → Instruction)
    (hDestination : ∀ id, (instruction id).destination? = some id)
    (hPhi : ∀ id, (instruction id).isPhi = false)
    (hOperands : ∀ id, ∀ value ∈ (instruction id).operands, ∃ ty, Usable plan body.draft value ty)
    (hSlot : ∀ id slot, (instruction id).slot? = some slot →
      slot.index < body.draft.function.slots.size)
    (hTyped : ∀ id, (instruction id).Typed (body.draft.function.newRegister ty))
    (hPlaced : ∀ id, (instruction id).Placed context.signature? (body.draft.function.newRegister ty)
      (body.draft.function.predecessorsAt body.draft.block))
    (hConforms : ∀ id, (instruction id).Conforms context) :
    let result := draft (Draft.emitResult ty instruction) body
    Stays context plan body result.2 ∧ Usable plan result.2.draft result.1 ty := by
  intro result
  generalize hMade : instruction body.draft.function.registers.nextId = made
  have hTargets : made.targets = [] := by
    have hDestination := hDestination body.draft.function.registers.nextId
    rw [hMade] at hDestination
    cases made with
    | jump _ | branch _ _ _ => cases hDestination
    | alloca _ | load _ _ | store _ _ | arith _ _ _ _ | compare _ _ _ _ | extend _ _ _ | call _ _ _
    | phi _ _ | ret _ => rfl
  obtain ⟨hReady, hFlow, hUsable⟩ := h.draft.emit_straight hTy (hDestination _) (hPhi _) (hOperands _)
    (hSlot _) (hTyped _) (hPlaced _) (hConforms _)
  rw [hMade, Function.add_eq_append _ _ hTargets, ← hMade] at hReady hFlow hUsable
  exact ⟨.withFunction h hReady hFlow (Table.size_modify _ _ _), hUsable⟩

theorem emit_stays (instruction : Instruction) (hAlloca : instruction.isAlloca = false)
    (hPhi : instruction.isPhi = false) (hTerminator : instruction.isTerminator = false)
    (hDestination : instruction.destination? = none) (hTargets : instruction.targets = [])
    (hOperands : ∀ value ∈ instruction.operands, ∃ ty, Usable plan body.draft value ty)
    (hSlot : ∀ id, instruction.slot? = some id → id.index < body.draft.function.slots.size)
    (hTyped : instruction.Typed body.draft.function)
    (hPlaced : instruction.Placed context.signature? body.draft.function
      (body.draft.function.predecessorsAt body.draft.block)) (hConforms : instruction.Conforms context) :
    Stays context plan body (draft (Draft.emit instruction) body).2 := by
  obtain ⟨hReady, hFlow⟩ := h.draft.append hAlloca hPhi hDestination hOperands hSlot hTyped hPlaced
    hTerminator hConforms
  rw [Function.add_eq_append _ _ hTargets] at hReady hFlow
  exact .withFunction h hReady hFlow (Table.size_modify _ _ _)

theorem usable_ty {value : Operand} {ty : Ty} (hUsable : Usable plan body.draft value ty) :
    ty = .i1 ∨ ty = .i32 := by
  have hTyped := hUsable.typed
  have hNotVoid : ty ≠ .void := by
    rintro rfl
    cases value with
    | const value => cases value <;> cases hTyped
    | register id => exact h.draft.staged.sound.framed.registers id .void hTyped rfl
  cases ty with
  | i1 => exact .inl rfl
  | i32 => exact .inr rfl
  | void => exact absurd rfl hNotVoid

theorem compare_stays (predicate : Predicate) {lhs rhs : Operand} {ty : Ty}
    (hLeft : Usable plan body.draft lhs ty) (hRight : Usable plan body.draft rhs ty) :
    let result := draft (Draft.compare predicate lhs rhs) body
    Stays context plan body result.2 ∧ Usable plan result.2.draft result.1 .i1 := by
  have hGrows := (Function.widens_newRegister body.draft.function .i1).grows
  refine emitResult_stays h (by decide) (.compare predicate · lhs rhs) (fun _ => rfl) (fun _ => rfl)
    ?_ (fun _ _ hSlot => by cases hSlot) ?_ (fun _ => trivial) (fun _ => trivial)
  · intro id value hValue
    rcases List.mem_pair.mp hValue with rfl | rfl
    · exact ⟨ty, hLeft⟩
    · exact ⟨ty, hRight⟩
  · intro id
    exact (hGrows.operandType? hLeft.typed).trans (hGrows.operandType? hRight.typed).symm

theorem arith_stays (op : Arith) {lhs rhs : Operand} (hLeft : Usable plan body.draft lhs .i32)
    (hRight : Usable plan body.draft rhs .i32) :
    let result := draft (Draft.arith op lhs rhs) body
    Stays context plan body result.2 ∧ Usable plan result.2.draft result.1 .i32 := by
  have hGrows := (Function.widens_newRegister body.draft.function .i32).grows
  refine emitResult_stays h (by decide) (.arith op · lhs rhs) (fun _ => rfl) (fun _ => rfl)
    ?_ (fun _ _ hSlot => by cases hSlot) ?_ (fun _ => trivial) (fun _ => trivial)
  · intro id value hValue
    rcases List.mem_pair.mp hValue with rfl | rfl
    · exact ⟨.i32, hLeft⟩
    · exact ⟨.i32, hRight⟩
  · intro id
    exact ⟨hGrows.operandType? hLeft.typed, hGrows.operandType? hRight.typed⟩

theorem load_stays {slot : SlotId} (hSlot : slot.index < body.draft.function.slots.size) :
    let result := draft (Draft.load .i32 slot) body
    Stays context plan body result.2 ∧ Usable plan result.2.draft result.1 .i32 := by
  refine emitResult_stays h (by decide) (.load · slot) (fun _ => rfl) (fun _ => rfl)
    (fun _ _ hValue => by cases hValue) ?_ (fun _ => trivial) (fun _ => trivial) (fun _ => trivial)
  intro _ found hFound
  cases hFound
  exact hSlot

theorem store_stays {slot : SlotId} {row : Slot} {value : Operand}
    (hSlot : body.draft.function.slots.get? slot = some row) (hRow : row.ty = .i32)
    (hValue : Usable plan body.draft value .i32) :
    Stays context plan body (draft (Draft.store slot value) body).2 := by
  refine emit_stays h (.store slot value) rfl rfl rfl rfl rfl ?_ ?_ ?_ trivial trivial
  · intro other hOther
    rw [List.mem_singleton.mp hOther]
    exact ⟨.i32, hValue⟩
  · intro found hFound
    cases hFound
    exact Table.lt_of_get? hSlot
  · intro found hFound
    rw [hSlot] at hFound
    cases hFound
    rw [hRow]
    exact hValue.typed

omit h in
theorem isBit_bind {α : Type} (value : Operand) (next : Bool → Lower α) :
    (isBit value >>= next) body =
      next (decide (body.draft.function.operandType? value = some .i1)) body :=
  rfl

theorem toWord_stays {value : Operand} {ty : Ty} (hValue : Usable plan body.draft value ty) :
    Stays context plan body (toWord value body).2 ∧
      Usable plan (toWord value body).2.draft (toWord value body).1 .i32 := by
  have hTyped := hValue.typed
  rw [toWord, isBit_bind, hTyped]
  rcases usable_ty h hValue with rfl | rfl
  · refine emitResult_stays h (by decide) (.extend · value .i32) (fun _ => rfl) (fun _ => rfl)
      ?_ (fun _ _ hSlot => by cases hSlot) (fun _ => trivial) (fun _ => trivial) (fun _ => trivial)
    intro id other hOther
    rw [List.mem_singleton.mp hOther]
    exact ⟨.i1, hValue⟩
  · exact ⟨.refl h, hValue⟩

theorem toWord_leads {value : Operand} {ty : Ty} (hValue : Usable plan body.draft value ty) :
    Leads context plan body (toWord value) fun plan' body' word =>
      Usable plan' body'.draft word .i32 :=
  ⟨plan, (toWord_stays h hValue).1.toMoves, (toWord_stays h hValue).2⟩

theorem isTruthy_stays {value : Operand} {ty : Ty} (hValue : Usable plan body.draft value ty) :
    Stays context plan body (isTruthy value body).2 ∧
      Usable plan (isTruthy value body).2.draft (isTruthy value body).1 .i1 := by
  have hTyped := hValue.typed
  rw [isTruthy, isBit_bind, hTyped]
  rcases usable_ty h hValue with rfl | rfl
  · exact compare_stays h .ne hValue (Draft.usable_const plan _ (.bool false))
  · exact compare_stays h .ne hValue (Draft.usable_const plan _ (.int 0))

theorem isTruthy_leads {value : Operand} {ty : Ty} (hValue : Usable plan body.draft value ty) :
    Leads context plan body (isTruthy value) fun plan' body' test =>
      Usable plan' body'.draft test .i1 :=
  ⟨plan, (isTruthy_stays h hValue).1.toMoves, (isTruthy_stays h hValue).2⟩

theorem isTrue_stays {value : Operand} {ty : Ty} (hValue : Usable plan body.draft value ty) :
    Stays context plan body (isTrue value body).2 ∧
      Usable plan (isTrue value body).2.draft (isTrue value body).1 .i1 := by
  have hTyped := hValue.typed
  rw [isTrue, isBit_bind, hTyped]
  rcases usable_ty h hValue with rfl | rfl
  · exact compare_stays h .eq hValue (Draft.usable_const plan _ (.bool true))
  · exact compare_stays h .ne hValue (Draft.usable_const plan _ (.int 0))

omit h in
theorem slotFor_eq (name : String) : slotFor name body =
    match body.scope.find? name with
    | some slot => (slot, body)
    | none => (body.draft.function.slots.nextId, { body with
        draft := { body.draft with
          function := body.draft.function.newSlot ⟨0⟩ { ty := .i32, name } }
        scope := body.scope.insert name body.draft.function.slots.nextId }) := by
  change (match body.scope.find? name with | some slot => _ | none => _ : Lower SlotId) body = _
  cases body.scope.find? name <;> rfl

omit h in
theorem readVariable_eq (name : Name) : readVariable name body =
    match body.scope.find? name.text with
    | some slot => (some <$> draft (Draft.load .i32 slot)) body
    | none => (none, (report (.undefinedVariable name.text) name.span body).2) := by
  change (match body.scope.find? name.text with | some slot => _ | none => _ :
    Lower (Option Operand)) body = _
  cases body.scope.find? name.text <;> rfl

theorem slotFor_leads (name : String) :
    Leads context plan body (slotFor name) fun _ body' slot =>
      body'.scope.find? name = some slot := by
  refine ⟨plan, ?_⟩
  rw [slotFor_eq]
  cases hFound : body.scope.find? name with
  | some slot => exact ⟨.refl h, hFound⟩
  | none =>
    obtain ⟨hReady, hFlow⟩ := h.draft.newSlot name
    have hScope := fun other => NameTable.find?_insert body.scope name other
      body.draft.function.slots.nextId
    refine ⟨⟨⟨hReady, ?_⟩, hFlow, ?_, List.prefix_rfl⟩, (hScope name).trans (if_pos rfl)⟩
    · intro other slot hSlot
      rw [hScope] at hSlot
      split at hSlot
      · rename_i hEq
        cases hSlot
        rw [hEq]
        exact (Table.get?_push _ _ _).trans (if_pos rfl)
      · exact hFlow.extends_.grows.slots _ _ (h.scope other slot hSlot)
    · intro other slot hSlot
      rw [hScope, if_neg]
      · exact hSlot
      · rintro rfl
        rw [hFound] at hSlot
        cases hSlot

theorem readVariable_leads (name : Name) :
    Leads context plan body (readVariable name) Valued := by
  unfold Leads
  rw [readVariable_eq]
  cases hFound : body.scope.find? name.text with
  | none =>
    obtain ⟨plan', hMoves, _⟩ := report_leads h (.undefinedVariable name.text) name.span
    exact ⟨plan', hMoves, fun _ hValue => by cases hValue⟩
  | some slot =>
    have hSlot := Table.lt_of_get? (h.scope name.text slot hFound)
    obtain ⟨hStays, hUsable⟩ := load_stays h hSlot
    refine ⟨plan, hStays.toMoves, fun _ hValue => ?_⟩
    cases hValue
    exact ⟨.i32, hUsable⟩

theorem wordPair_leads {lhs rhs : Option Operand} (hLeft : Valued plan body lhs)
    (hRight : Valued plan body rhs) :
    Leads context plan body (wordPair lhs rhs) fun plan' body' pair =>
      ∀ first second, pair = some (first, second) →
        Usable plan' body'.draft first .i32 ∧ Usable plan' body'.draft second .i32 := by
  cases lhs with
  | none => exact .pure h fun _ _ hPair => by cases hPair
  | some left =>
    obtain ⟨leftTy, hLeft⟩ := hLeft left rfl
    refine .bind h (toWord_leads h hLeft) fun plan' body' first hMoves hFirst => ?_
    cases rhs with
    | none => exact .pure hMoves.ready fun _ _ hPair => by cases hPair
    | some right =>
      obtain ⟨rightTy, hRight⟩ := hRight right rfl
      refine .bind hMoves.ready (toWord_leads hMoves.ready (hRight.flow hMoves.flow))
        fun plan'' body'' second hMoves' hSecond => ?_
      refine .pure hMoves'.ready fun _ _ hPair => ?_
      cases hPair
      exact ⟨hFirst.flow hMoves'.flow, hSecond⟩

omit h in
theorem length_withCount (fixed : Nat) (arguments : List Operand) :
    (withCount fixed arguments).length = arguments.length + 1 := by
  simp only [withCount, List.length_append, List.length_cons, List.length_take, List.length_drop]
  omega

theorem call_leads {callee : FunctionId} {signature : Signature} {passed : List Operand}
    (hCallee : context.signature? callee = some signature)
    (hAccepts : signature.accepts passed.length = true)
    (hCount : signature.variadic = true → ∃ given : List Operand, given.length ≤ context.width ∧
      passed = withCount signature.visibleArity given)
    (hPassed : ∀ value ∈ passed, ∃ ty, Usable plan body.draft value ty) :
    Leads context plan body (draft (Draft.call callee signature.result passed)) Valued := by
  unfold Leads Draft.call
  by_cases hVoid : signature.result = .void
  · rw [if_pos hVoid]
    have hStays := emit_stays h (.call callee passed none) rfl rfl rfl rfl rfl hPassed
      (fun _ hSlot => by cases hSlot) trivial ⟨signature, hCallee, hAccepts⟩
      ⟨signature, hCallee, by simp [hVoid], hCount⟩
    exact ⟨plan, hStays.toMoves, fun _ hValue => by cases hValue⟩
  · rw [if_neg hVoid]
    obtain ⟨hStays, hUsable⟩ := emitResult_stays h hVoid (.call callee passed <| some ·) (fun _ => rfl)
      (fun _ => rfl) (fun _ => hPassed) (fun _ _ hSlot => by cases hSlot) (fun _ => trivial)
      (fun _ => ⟨signature, hCallee, hAccepts⟩)
      (fun _ => ⟨signature, hCallee, by simp [hVoid], hCount⟩)
    refine ⟨plan, hStays.toMoves, fun _ hValue => ?_⟩
    cases hValue
    exact ⟨_, hUsable⟩

theorem emitCall_leads (name : Name) {callee : Callee}
    (hCallee : context.signature? callee.id = some callee.signature) {arguments : List Operand}
    (hWidth : arguments.length ≤ context.width)
    (hArguments : ∀ value ∈ arguments, Usable plan body.draft value .i32) :
    Leads context plan body (emitCall name callee arguments) Valued := by
  unfold emitCall
  have hCount := length_withCount callee.signature.visibleArity arguments
  by_cases hVariadic : callee.signature.variadic = true
  · simp only [hVariadic, if_true]
    by_cases hFits : callee.signature.visibleArity ≤ arguments.length
    · rw [if_pos hFits]
      refine call_leads h hCallee ?_ (fun _ => ⟨arguments, hWidth, rfl⟩) ?_
      · rw [hCount, Signature.accepts, if_pos hVariadic]
        rw [Signature.visibleArity, if_pos hVariadic] at hFits
        exact decide_eq_true (by omega)
      · intro value hValue
        rcases List.mem_append.mp hValue with hValue | hValue
        · exact ⟨.i32, hArguments value (List.mem_of_mem_take hValue)⟩
        · rcases List.mem_cons.mp hValue with rfl | hValue
          · exact ⟨.i32, Draft.usable_const plan _ _⟩
          · exact ⟨.i32, hArguments value (List.mem_of_mem_drop hValue)⟩
    · rw [if_neg hFits]
      exact .bind h (report_leads h _ _) fun _ _ _ hMoves _ =>
        .pure hMoves.ready fun _ hValue => by cases hValue
  · simp only [hVariadic, Bool.false_eq_true, if_false]
    by_cases hFits : arguments.length = callee.signature.visibleArity
    · rw [if_pos hFits]
      refine call_leads h hCallee ?_ (fun hTrue => absurd hTrue hVariadic) ?_
      · rw [hFits, Signature.accepts, if_neg hVariadic, Signature.visibleArity, if_neg hVariadic]
        exact decide_eq_true rfl
      · exact fun value hValue => ⟨.i32, hArguments value hValue⟩
    · rw [if_neg hFits]
      exact .bind h (report_leads h _ _) fun _ _ _ hMoves _ =>
        .pure hMoves.ready fun _ hValue => by cases hValue

end Straight

/-- The values that two arms bring to the block where they meet. -/
def incoming (x y : BlockId) (first second : Option Operand) : Lower (Option (Operand × Operand)) :=
  match first, second with
  | some first, some second => some <$> unify x y first second
  | _, _ => pure none

/-- Two open blocks end in jumps to a third one. -/
def Body.join (body : Body) (x y join : BlockId) : Body :=
  (body.withFunction ((body.draft.function.add x (.jump join)).add y (.jump join))).goTo join

theorem Body.draft_join (body : Body) (x y join : BlockId) : (body.join x y join).draft =
    ⟨(body.draft.function.add x (.jump join)).add y (.jump join), join⟩ :=
  rfl

@[simp] theorem Body.scope_join (body : Body) (x y j : BlockId) :
    (body.join x y j).scope = body.scope := by
  simp only [join, goTo, withFunction]

@[simp] theorem Body.diagnostics_join (body : Body) (x y j : BlockId) :
    (body.join x y j).diagnostics = body.diagnostics := by
  simp only [join, goTo, withFunction]

/-- The value of the block where two arms have met. -/
def conclude (x y : BlockId) : Option (Operand × Operand) → Lower (Option Operand)
  | none => return none
  | some (first, second) => do
    let ty := (← draft (Draft.operandType? first)).getD .i32
    return some (← draft (Draft.phi ty [(x, first), (y, second)]))

theorem conclude_some (x y : BlockId) (values : Operand × Operand) (body : Body) {ty : Ty}
    (hTy : body.draft.function.operandType? values.1 = some ty) :
    conclude x y (some values) body = (some (.register body.draft.function.registers.nextId),
      body.withFunction ((body.draft.function.newRegister ty).add body.draft.block
        (.phi body.draft.function.registers.nextId (.ofList [(x, values.1), (y, values.2)])))) := by
  change (some <$> draft (Draft.phi ((body.draft.function.operandType? values.1).getD .i32) _)) body = _
  rw [hTy]
  rfl

theorem merge_eq (x y : BlockId) (first second : Option Operand) (body : Body) :
    merge x y first second body = conclude x y
      (incoming x y first second (body.withFunction (body.draft.function.newBlock "ifcont"))).1
      ((incoming x y first second (body.withFunction (body.draft.function.newBlock "ifcont"))).2.join
        x y body.draft.function.blocks.nextId) := by
  cases first with
  | none => rfl
  | some first => cases second <;> rfl

theorem unify_eq (x y : BlockId) (first second : Operand) (body : Body) :
    unify x y first second body = if body.draft.function.operandType? first =
        body.draft.function.operandType? second then ((first, second), body)
      else (((toWord first (body.goTo x)).1, (toWord second ((toWord first (body.goTo x)).2.goTo y)).1),
        (toWord second ((toWord first (body.goTo x)).2.goTo y)).2) := by
  change (ite _ _ _ : Lower (Operand × Operand)) body = _
  split <;> rfl

theorem Body.bodyAt_join {body : Body} {x y : BlockId} (hx : x.index < body.draft.function.blocks.size)
    (hy : y.index < body.draft.function.blocks.size) (hxy : x ≠ y) (j : BlockId) {id : BlockId}
    (hId : id = x ∨ id = y) : (body.join x y j).draft.function.bodyAt id =
      body.draft.function.bodyAt id ++ [.jump j] := by
  have hy' : y.index < (body.draft.function.add x (.jump j)).blocks.size := by
    rw [Function.size_add]
    exact hy
  rw [Body.draft_join, Function.bodyAt_add _ hy' rfl, Function.bodyAt_add _ hx rfl]
  rcases hId with rfl | rfl
  · rw [if_neg hxy, if_pos rfl]
  · rw [if_pos rfl, if_neg hxy.symm]

section Merge

variable {body : Body} (h : body.Ready context plan) {x y : BlockId}
  (hx : x ∈ plan.frontier) (hy : y ∈ plan.frontier)
include h hx hy

theorem unify_spec {first second : Operand} {firstTy secondTy : Ty}
    (hFirst : Usable plan (body.goTo x).draft first firstTy)
    (hSecond : Usable plan (body.goTo y).draft second secondTy) :
    let result := unify x y first second body
    ∃ f ty, result.2.Ready context plan ∧ result.2.scope = body.scope ∧
      result.2.diagnostics = body.diagnostics ∧
      result.2.draft.function.blocks.size = body.draft.function.blocks.size ∧
      Function.Extends x plan body.draft.function plan f ∧
      Function.Extends y plan f plan result.2.draft.function ∧
      Usable plan (result.2.goTo x).draft result.1.1 ty ∧
      Usable plan (result.2.goTo y).draft result.1.2 ty := by
  intro result
  have hEq : result = _ := unify_eq x y first second body
  have hFirstTy : body.draft.function.operandType? first = some firstTy := hFirst.typed
  have hSecondTy : body.draft.function.operandType? second = some secondTy := hSecond.typed
  rw [hEq, hFirstTy, hSecondTy]
  split
  · rename_i hTy
    cases hTy
    exact ⟨_, firstTy, h, rfl, rfl, rfl, .refl _ _ _, .refl _ _ _, hFirst, hSecond⟩
  · obtain ⟨hStays, hFirst'⟩ := toWord_stays (h.goTo hx) hFirst
    generalize toWord first (body.goTo x) = widened at hStays hFirst' ⊢
    have hSecond' : Usable plan (widened.2.goTo y).draft second secondTy :=
      hSecond.extends_ (h.draft.staged.known y hy) hStays.flow.extends_
    obtain ⟨hStays', hSecond'⟩ := toWord_stays (hStays.ready.goTo hy) hSecond'
    generalize toWord second (widened.2.goTo y) = both at hStays' hSecond' ⊢
    have hFirst'' := hFirst'.extends_ hStays.ready.draft.block_lt hStays'.flow.extends_
    rw [hStays.block_eq] at hFirst''
    have hBlock : both.2.draft.block = y := hStays'.block_eq
    refine ⟨_, .i32, hStays'.ready, hStays'.scope_eq.trans hStays.scope_eq,
      hStays'.diagnostics_eq.trans hStays.diagnostics_eq, hStays'.size_eq.trans hStays.size_eq,
      hStays.flow.extends_, hStays'.flow.extends_, hFirst'', ?_⟩
    rw [← hBlock]
    exact hSecond'

theorem incoming_spec {first second : Option Operand} (hFirst : Valued plan (body.goTo x) first)
    (hSecond : Valued plan (body.goTo y) second) :
    let result := incoming x y first second body
    ∃ f, result.2.Ready context plan ∧ result.2.scope = body.scope ∧
      result.2.diagnostics = body.diagnostics ∧
      result.2.draft.function.blocks.size = body.draft.function.blocks.size ∧
      Function.Extends x plan body.draft.function plan f ∧
      Function.Extends y plan f plan result.2.draft.function ∧
      ∀ values, result.1 = some values → ∃ ty, Usable plan (result.2.goTo x).draft values.1 ty ∧
        Usable plan (result.2.goTo y).draft values.2 ty := by
  intro result
  cases first with
  | none => exact ⟨_, h, rfl, rfl, rfl, .refl _ _ _, .refl _ _ _, fun _ hPair => by cases hPair⟩
  | some first =>
    cases second with
    | none => exact ⟨_, h, rfl, rfl, rfl, .refl _ _ _, .refl _ _ _, fun _ hPair => by cases hPair⟩
    | some second =>
      obtain ⟨firstTy, hFirst⟩ := hFirst first rfl
      obtain ⟨secondTy, hSecond⟩ := hSecond second rfl
      obtain ⟨f, ty, hReady, hScope, hDiagnostics, hSize, hx, hy, hFirst, hSecond⟩ :=
        unify_spec h hx hy hFirst hSecond
      refine ⟨f, hReady, hScope, hDiagnostics, hSize, hx, hy, fun values hValues => ?_⟩
      rw [← Option.some.inj hValues]
      exact ⟨ty, hFirst, hSecond⟩

theorem merge_incoming {first second : Option Operand} (hFirst : Valued plan (body.goTo x) first)
    (hSecond : Valued plan (body.goTo y) second) (written : RegisterId → Prop) :
    let plan' := plan.add body.draft.function.blocks.nextId written
    let result := incoming x y first second
      (body.withFunction (body.draft.function.newBlock "ifcont"))
    ∃ f, result.2.Ready context plan' ∧ result.2.scope = body.scope ∧
      result.2.diagnostics = body.diagnostics ∧
      result.2.draft.function.blocks.size = body.draft.function.blocks.size + 1 ∧
      Function.Extends x plan' (body.draft.function.newBlock "ifcont") plan' f ∧
      Function.Extends y plan' f plan' result.2.draft.function ∧
      ∀ values, result.1 = some values → ∃ ty, Usable plan' (result.2.goTo x).draft values.1 ty ∧
        Usable plan' (result.2.goTo y).draft values.2 ty := by
  have hReady := h.withFunction (h.draft.newBlock "ifcont" written)
    (Function.Extends.newBlock x plan body.draft.function "ifcont" written).grows
  obtain ⟨f, hGathered, hScope, hDiagnostics, hSize, hf, hf', hValues⟩ :=
    incoming_spec hReady (.inr hx) (.inr hy) (hFirst.newBlock h hx _ _) (hSecond.newBlock h hy _ _)
  exact ⟨f, hGathered, hScope, hDiagnostics, hSize.trans (Table.size_push _ _), hf, hf', hValues⟩

end Merge

/-- Two open blocks have met in a new one, which the given registers are surely written at. -/
structure Body.Merges (context : Context) (plan : Plan) (body : Body) (x y : BlockId)
    (written : RegisterId → Prop) (plan' : Plan) (body' : Body) : Prop where
  ready : body'.Ready context plan'
  block : body'.draft.block = body.draft.function.blocks.nextId
  scope : body'.scope = body.scope
  diagnostics : body'.diagnostics = body.diagnostics
  frontier : ∀ id, id ∈ plan'.frontier ↔
    id = body.draft.function.blocks.nextId ∨ id ∈ plan.frontier ∧ id ≠ x ∧ id ≠ y
  entering : plan'.entering body.draft.function.blocks.nextId = written
  larger : body.draft.function.Grows body'.draft.function
  extends_ : ∀ at_ plan₀ f, Function.Extends at_ plan₀ f plan body.draft.function →
    at_.index < f.blocks.size → (x = at_ ∨ f.blocks.size ≤ x.index) →
    (y = at_ ∨ f.blocks.size ≤ y.index) → Function.Extends at_ plan₀ f plan' body'.draft.function

/-- Something added to the new block. -/
theorem Body.Merges.grows {body body' : Body} {x y : BlockId} {written : RegisterId → Prop}
    {plan' : Plan} (h : Merges context plan body x y written plan' body') {f : Function}
    (hReady : (⟨f, body'.draft.block⟩ : Draft).Ready context plan')
    (hGrows : body'.draft.function.Grows f)
    (hKept : ∀ id, id ≠ body'.draft.block → f.bodyAt id = body'.draft.function.bodyAt id) :
    Merges context plan body x y written plan' (body'.withFunction f) where
  ready := h.ready.withFunction hReady hGrows
  block := h.block
  scope := h.scope
  diagnostics := h.diagnostics
  frontier := h.frontier
  entering := h.entering
  larger := h.larger.trans hGrows
  extends_ at_ plan₀ f₀ hBase hAt hx hy := by
    refine (h.extends_ at_ plan₀ f₀ hBase hAt hx hy).new hAt hGrows ?_ hKept
    rw [h.block]
    exact hBase.grows.blocks

section Merge

variable {body : Body} (h : body.Ready context plan) {x y : BlockId}
  (hx : x ∈ plan.frontier) (hy : y ∈ plan.frontier) (hxy : x ≠ y) {written : RegisterId → Prop}
  (hWritten : ∀ register, written register →
    body.draft.function.Leaving plan.entering x register ∧
      body.draft.function.Leaving plan.entering y register)
include h hx hy hxy hWritten

theorem join_merges {body' : Body} {f : Function} {j : BlockId} {plan₁ : Plan}
    (hj : j = body.draft.function.blocks.nextId) (hPlan : plan₁ = plan.add j written)
    (hReady : body'.Ready context plan₁)
    (hScope : body'.scope = body.scope) (hDiagnostics : body'.diagnostics = body.diagnostics)
    (hSize : body'.draft.function.blocks.size = body.draft.function.blocks.size + 1)
    (hFirst : Function.Extends x plan₁ (body.draft.function.newBlock "ifcont") plan₁ f)
    (hSecond : Function.Extends y plan₁ f plan₁ body'.draft.function) :
    ∃ plan', Body.Merges context plan body x y written plan' (body'.join x y j) ∧
      plan'.entering = plan₁.entering ∧
      body'.draft.function.Grows (body'.join x y j).draft.function ∧
      (body'.join x y j).draft.function.bodyAt j = [] ∧
      ∀ source, j ∈ (body'.join x y j).draft.function.successorsAt source ↔
        source = x ∨ source = y := by
  have hxLess := h.draft.staged.known x hx
  have hyLess := h.draft.staged.known y hy
  have hxj : x ≠ j := by
    rw [hj]
    exact Id.ne_of_index_lt hxLess
  have hyj : y ≠ j := by
    rw [hj]
    exact Id.ne_of_index_lt hyLess
  have hEntry : j ≠ ⟨0⟩ := by
    rw [hj]
    exact (Id.ne_of_index_lt h.draft.size_pos).symm
  have hNew := Function.Extends.newBlock x plan body.draft.function "ifcont" written
  rw [← hj, ← hPlan] at hNew
  have hKept : ∀ id, id ≠ x → id ≠ y → id.index < body'.draft.function.blocks.size →
      body'.draft.function.bodyAt id = body.draft.function.bodyAt id := by
    intro id hNeX hNeY hId
    have hNewSize : (body.draft.function.newBlock "ifcont").blocks.size =
        body.draft.function.blocks.size + 1 := Table.size_push _ _
    rw [hSize, ← hNewSize] at hId
    rw [hSecond.kept id (Nat.lt_of_lt_of_le hId hFirst.grows.blocks) hNeY, hFirst.kept id hId hNeX,
      Function.bodyAt_newBlock]
  have hEmpty : body'.draft.function.bodyAt j = [] := by
    rw [hKept j hxj.symm hyj.symm (by rw [hSize, hj]; exact Nat.lt_succ_self _), hj]
    exact body.draft.function.bodyAt_of_size_le (Nat.le_refl _)
  have hEntering : plan₁.entering j = written := by
    rw [hPlan]
    exact if_pos rfl
  have hLeaving : ∀ id register, id.index < body.draft.function.blocks.size →
      body.draft.function.Leaving plan.entering id register →
      body'.draft.function.Leaving plan₁.entering id register := by
    intro id register hId hMem
    have hId₁ := Nat.lt_of_lt_of_le hId hNew.grows.blocks
    exact hSecond.leaving (Nat.lt_of_lt_of_le hId₁ hFirst.grows.blocks)
      (hFirst.leaving hId₁ (hNew.leaving hId hMem))
  have hFrontier : ∀ id, id ∈ plan₁.frontier ↔ id = j ∨ id ∈ plan.frontier := by
    intro id
    rw [hPlan]
    rfl
  have hNone : ∀ source, j ∉ body'.draft.function.successorsAt source := by
    intro source hMem
    by_cases hOpen : source ∈ plan₁.frontier
    · rw [hReady.draft.staged.successorsAt_eq_nil hOpen] at hMem
      cases hMem
    · have hNeX : source ≠ x := fun hEq => hOpen ((hFrontier source).mpr (.inr (hEq ▸ hx)))
      have hNeY : source ≠ y := fun hEq => hOpen ((hFrontier source).mpr (.inr (hEq ▸ hy)))
      rw [Function.successorsAt, hKept source hNeX hNeY
        (body'.draft.function.lt_size_of_mem_successorsAt hMem), hj] at hMem
      exact Nat.lt_irrefl _ (h.draft.staged.sound.target_lt hMem)
  obtain ⟨hJoined, hEmpty', hSuccessors⟩ := hReady.draft.join ((hFrontier x).mpr (.inr hx))
    ((hFrontier y).mpr (.inr hy)) ((hFrontier j).mpr (.inl rfl)) hxy hxj hyj hEntry hEmpty (by
      intro register hRegister
      rw [hEntering] at hRegister
      exact ⟨hLeaving x register hxLess (hWritten register hRegister).1,
        hLeaving y register hyLess (hWritten register hRegister).2⟩)
  have hxLess' := hReady.draft.staged.known x ((hFrontier x).mpr (.inr hx))
  have hyLess' : y.index < (body'.draft.function.add x (.jump j)).blocks.size := by
    rw [Function.size_add]
    exact hReady.draft.staged.known y ((hFrontier y).mpr (.inr hy))
  have hJoinGrows : body'.draft.function.Grows (body'.join x y j).draft.function := by
    rw [Body.draft_join]
    exact (Function.grows_add hxLess' rfl).trans (Function.grows_add hyLess' rfl)
  refine ⟨(plan₁.close x).close y, ⟨⟨?_, ?_⟩, hj, ?_, ?_, ?_, ?_, ?_, ?_⟩, rfl, hJoinGrows, ?_, ?_⟩
  · rw [Body.draft_join]
    exact hJoined
  · rw [Body.draft_join, Body.scope_join, Function.slots_add, Function.slots_add]
    exact hReady.scope
  · rw [Body.scope_join, hScope]
  · rw [Body.diagnostics_join, hDiagnostics]
  · intro id
    rw [← hj]
    constructor
    · rintro ⟨⟨hMem, hNeX⟩, hNeY⟩
      rcases (hFrontier id).mp hMem with hEq | hMem
      · exact .inl hEq
      · exact .inr ⟨hMem, hNeX, hNeY⟩
    · rintro (rfl | ⟨hMem, hNeX, hNeY⟩)
      · exact ⟨⟨(hFrontier _).mpr (.inl rfl), hxj.symm⟩, hyj.symm⟩
      · exact ⟨⟨(hFrontier id).mpr (.inr hMem), hNeX⟩, hNeY⟩
  · rw [← hj]
    exact hEntering
  · exact ((hNew.grows.trans hFirst.grows).trans hSecond.grows).trans hJoinGrows
  · intro at_ plan₀ f₀ hBase hAt hx₀ hy₀
    rw [Body.draft_join]
    have hNew₀ := Function.Extends.newBlock at_ plan body.draft.function "ifcont" written
    rw [← hj, ← hPlan] at hNew₀
    have hGathered := ((hBase.trans hNew₀ hAt (.inl rfl)).trans hFirst hAt hx₀).trans hSecond hAt hy₀
    exact (hGathered.trans (.add hxLess' rfl rfl rfl) hAt hx₀).trans (.add hyLess' rfl rfl rfl) hAt hy₀
  · rw [Body.draft_join]
    exact hEmpty'
  · intro source
    rw [Body.draft_join, hSuccessors]
    exact ⟨fun hMem => hMem.resolve_left (hNone source), .inr⟩

theorem merge_spec {first second : Option Operand} (hFirst : Valued plan (body.goTo x) first)
    (hSecond : Valued plan (body.goTo y) second) :
    let result := merge x y first second body
    ∃ plan', Body.Merges context plan body x y written plan' result.2 ∧
      Valued plan' result.2 result.1 := by
  intro result
  have hResult : result = merge x y first second body := rfl
  rw [merge_eq] at hResult
  obtain ⟨f, hGathered, hScope, hDiagnostics, hSize, hf, hf', hValues⟩ :=
    merge_incoming h hx hy hFirst hSecond written
  generalize incoming x y first second _ = gathered at hResult hGathered hScope hDiagnostics hSize hf' hValues
  obtain ⟨plan', hMerges, hEntering, hGrows, hEmpty, hSources⟩ := join_merges h hx hy hxy hWritten rfl
    rfl hGathered hScope hDiagnostics hSize hf hf'
  obtain ⟨values, body'⟩ := gathered
  have hBlock := hMerges.block
  generalize body'.join x y _ = joined at hResult hMerges hGrows hEmpty hSources hBlock
  rw [hResult]
  cases values with
  | none => exact ⟨plan', hMerges, fun _ hValue => by cases hValue⟩
  | some values =>
    obtain ⟨ty, hFirst, hSecond⟩ := hValues values rfl
    have hUsable : ∀ {at_ : BlockId} {value : Operand},
        Usable (plan.add body.draft.function.blocks.nextId written) (body'.goTo at_).draft value ty →
        Usable plan' (joined.goTo at_).draft value ty := by
      intro at_ value hValue
      refine ⟨hGrows.operandType? hValue.typed, fun id hId => ?_⟩
      rw [hEntering]
      exact hGrows.leaving (hValue.written id hId)
    have hNotVoid : ty ≠ .void := by
      rcases usable_ty (hGathered.goTo (.inr hx)) hFirst with rfl | rfl <;> decide
    have hEntry : joined.draft.block ≠ ⟨0⟩ := by
      rw [hBlock]
      exact (Id.ne_of_index_lt h.draft.size_pos).symm
    rw [← hBlock] at hEmpty hSources
    obtain ⟨hReady', hGrows', hBody, hValue⟩ := hMerges.ready.draft.phi hNotVoid hEmpty hEntry hSources
      (hUsable hFirst) (hUsable hSecond)
    rw [conclude_some x y values joined (hUsable hFirst).typed]
    refine ⟨plan', hMerges.grows hReady' hGrows' fun id hNe => by rw [hBody, if_neg hNe], ?_⟩
    intro operand hOperand
    cases hOperand
    exact ⟨ty, hValue⟩

end Merge
end Slate.Lowering
