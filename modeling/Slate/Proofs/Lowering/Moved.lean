import Slate.Proofs.Lowering.Reports
import Slate.Proofs.Moved

/-! # Lowering does not look at places

The places in a program go into the reports about it and nowhere else: a program at other places gives the same
module and the same events, with the reports at those places.
-/

namespace Slate
set_option autoImplicit false

def Diagnostic.moved (move : Move) (problem : Diagnostic) : Diagnostic :=
  ⟨problem.complaint, move.place problem.span⟩

def Event.moved (move : Move) : Event → Event
  | .diagnostic problem => .diagnostic (problem.moved move)
  | .declared name arity => .declared name arity
  | .lowered name => .lowered name
  | .produced value => .produced value

namespace Lowering

variable {move : Move}

def Body.moved (move : Move) (body : Body) : Body :=
  ⟨body.draft, body.scope, body.diagnostics.map (Diagnostic.moved move)⟩

theorem Body.scope_moved (body : Body) : (body.moved move).scope = body.scope := rfl

/-- At other places, `other` does what `action` does. -/
def Alike {α : Type} (move : Move) (action other : Lower α) : Prop :=
  ∀ body, other (body.moved move) = ((action body).1, (action body).2.moved move)

namespace Alike

variable {α β : Type}

theorem pure (value : α) : Alike move (Pure.pure value) (Pure.pure value) := fun _ => rfl

theorem bind {action other : Lower α} {next otherNext : α → Lower β} (h : Alike move action other)
    (hNext : ∀ value, Alike move (next value) (otherNext value)) :
    Alike move (action >>= next) (other >>= otherNext) := by
  intro body
  change otherNext (other (body.moved move)).1 (other (body.moved move)).2 = _
  rw [h body]
  exact hNext _ _

theorem map (f : α → β) {action other : Lower α} (h : Alike move action other) :
    Alike move (f <$> action) (f <$> other) :=
  h.bind fun value => .pure (f value)

theorem ite {condition : Prop} [Decidable condition] {yes otherYes no otherNo : Lower α}
    (hYes : Alike move yes otherYes) (hNo : Alike move no otherNo) :
    Alike move (if condition then yes else no) (if condition then otherYes else otherNo) := by
  split
  · exact hYes
  · exact hNo

theorem draft (action : StateM Draft α) : Alike move (Lowering.draft action) (Lowering.draft action) :=
  fun _ => rfl

theorem modify {f : Body → Body} (h : ∀ body, f (body.moved move) = (f body).moved move) :
    Alike move (modifyThe Body f) (modifyThe Body f) :=
  fun body => congrArg (Prod.mk PUnit.unit) (h body)

theorem report (complaint : Complaint) (span : Span) :
    Alike move (Lowering.report complaint span) (Lowering.report complaint (move.place span)) := by
  intro body
  have hMap : (body.diagnostics ++ [(⟨complaint, span⟩ : Diagnostic)]).map (Diagnostic.moved move) =
      body.diagnostics.map (Diagnostic.moved move) ++ [⟨complaint, move.place span⟩] := List.map_append
  exact congrArg (fun problems => (PUnit.unit, (⟨body.draft, body.scope, problems⟩ : Body))) hMap.symm

/-- At the start of a body there are no reports. -/
theorem opened {action other : Lower α} (h : Alike move action other) (draft : Draft) (scope : NameTable SlotId) :
    other { draft, scope } = ((action { draft, scope }).1, (action { draft, scope }).2.moved move) :=
  h { draft, scope }

end Alike

/-! ## Straight actions -/

theorem toWord_alike (value : Operand) : Alike move (toWord value) (toWord value) :=
  .bind (.bind (.draft _) fun _ => .pure _) fun _ => .ite (.draft _) (.pure _)

theorem slotFor_alike (name : String) : Alike move (slotFor name) (slotFor name) := by
  intro body
  rw [slotFor_eq, slotFor_eq]
  rw [Body.scope_moved]
  cases body.scope.find? name with
  | some slot => rfl
  | none => rfl

theorem readVariable_alike (name : Name) : Alike move (readVariable name) (readVariable (name.moved move)) := by
  intro body
  rw [readVariable_eq, readVariable_eq]
  rw [Body.scope_moved, Name.text_moved]
  cases body.scope.find? name.text with
  | some slot => rfl
  | none => exact congrArg (Prod.mk none) (congrArg Prod.snd (Alike.report _ _ body))

theorem isTruthy_alike (value : Operand) : Alike move (isTruthy value) (isTruthy value) :=
  .bind (.bind (.draft _) fun _ => .pure _) fun _ => .ite (.draft _) (.draft _)

theorem isTrue_alike (value : Operand) : Alike move (isTrue value) (isTrue value) :=
  .bind (.bind (.draft _) fun _ => .pure _) fun _ => .ite (.draft _) (.draft _)

theorem wordPair_alike (lhs rhs : Option Operand) : Alike move (wordPair lhs rhs) (wordPair lhs rhs) := by
  cases lhs with
  | none => exact .pure none
  | some left =>
    refine .bind (toWord_alike left) fun first => ?_
    cases rhs with
    | none => exact .pure none
    | some right => exact .bind (toWord_alike right) fun _ => .pure _

theorem emitCall_alike (name : Name) (callee : Callee) (arguments : List Operand) :
    Alike move (emitCall name callee arguments) (emitCall (name.moved move) callee arguments) :=
  .ite (.draft _) (.bind (.report _ _) fun _ => .pure none)

theorem unify_alike (thenExit elseExit : BlockId) (thenValue elseValue : Operand) :
    Alike move (unify thenExit elseExit thenValue elseValue) (unify thenExit elseExit thenValue elseValue) :=
  .bind (.draft _) fun _ => .bind (.draft _) fun _ => .ite (.pure _)
    (.bind (.draft _) fun _ => .bind (toWord_alike _) fun _ =>
      .bind (.draft _) fun _ => .bind (toWord_alike _) fun _ => .pure _)

theorem incoming_alike (thenExit elseExit : BlockId) (thenValue elseValue : Option Operand) :
    Alike move (incoming thenExit elseExit thenValue elseValue) (incoming thenExit elseExit thenValue elseValue) := by
  cases thenValue with
  | none => exact .pure none
  | some first =>
    cases elseValue with
    | none => exact .pure none
    | some second => exact .map _ (unify_alike thenExit elseExit first second)

theorem conclude_alike (thenExit elseExit : BlockId) (values : Option (Operand × Operand)) :
    Alike move (conclude thenExit elseExit values) (conclude thenExit elseExit values) := by
  cases values with
  | none => exact .pure none
  | some pair => exact .bind (.draft _) fun _ => .bind (.draft _) fun _ => .pure _

theorem merge_alike (thenExit elseExit : BlockId) (thenValue elseValue : Option Operand) :
    Alike move (merge thenExit elseExit thenValue elseValue) (merge thenExit elseExit thenValue elseValue) := by
  intro body
  have hWith : ∀ f : Function, (body.moved move).withFunction f = (body.withFunction f).moved move := fun _ => rfl
  have hJoin : ∀ (other : Body) (join : BlockId), (other.moved move).join thenExit elseExit join =
      (other.join thenExit elseExit join).moved move := by
    intro other join
    simp only [Body.join, Body.goTo, Body.withFunction, Body.moved]
  rw [merge_eq, merge_eq, hWith, incoming_alike, hJoin]
  exact conclude_alike _ _ _ _

mutual

theorem expression_alike (callees : Callees) :
    ∀ e : Expr, Alike move (expression callees e) (expression callees (e.moved move))
  | .int _ value => by
    rw [Expr.moved, expression, expression]
    exact .pure _
  | .binary _ op lhs rhs => by
    rw [Expr.moved, expression, expression]
    refine .bind (expression_alike callees lhs) fun left => .bind (expression_alike callees rhs)
      fun right => .bind (wordPair_alike left right) fun pair => ?_
    cases pair with
    | none => exact .pure none
    | some operands => exact .bind (.draft _) fun _ => .pure _
  | .compare _ op lhs rhs => by
    rw [Expr.moved, expression, expression]
    refine .bind (expression_alike callees lhs) fun left => .bind (expression_alike callees rhs)
      fun right => .bind (wordPair_alike left right) fun pair => ?_
    cases pair with
    | none => exact .pure none
    | some operands => exact .bind (.draft _) fun _ => .pure _
  | .variable _ name => by
    rw [Expr.moved, expression, expression]
    exact readVariable_alike name
  | .assign _ target value => by
    rw [Expr.moved, expression, expression]
    refine .bind (slotFor_alike _) fun slot => .bind (expression_alike callees value) fun result => ?_
    cases result with
    | none => exact .pure none
    | some result => exact .bind (toWord_alike result) fun _ => .bind (.draft _) fun _ => .pure _
  | .branch _ condition positive negative => by
    rw [Expr.moved, expression, expression]
    refine .bind (expression_alike callees condition) fun value => ?_
    cases value with
    | none => exact .pure none
    | some value =>
      exact .bind (isTruthy_alike value) fun _ => .bind (.draft _) fun _ => .bind (.draft _) fun _ =>
        .bind (.draft _) fun _ => .bind (.draft _) fun _ => .bind (arm_alike callees _ positive) fun _ =>
        .bind (.draft _) fun _ => .bind (.draft _) fun _ => .bind (arm_alike callees _ negative) fun _ =>
        .bind (.draft _) fun _ => merge_alike _ _ _ _
  | .loop _ initializer condition step body => by
    rw [Expr.moved, expression, expression]
    refine .bind (expression_alike callees initializer) fun _ => .bind (.draft _) fun condBlock =>
      .bind (.draft _) fun loopBlock => .bind (.draft _) fun afterBlock => .bind (.draft _) fun _ =>
      .bind (.draft _) fun _ => .bind (expression_alike callees condition) fun value => ?_
    -- both ways out of the condition go on with the body
    have hRest : ∀ _ : PUnit, Alike move
        (do
          Lowering.draft (Draft.moveTo loopBlock)
          let _ ← arm callees none body
          let _ ← expression callees step
          Lowering.draft (Draft.jump condBlock)
          Lowering.draft (Draft.moveTo afterBlock)
          Pure.pure none : Lower (Option Operand))
        (do
          Lowering.draft (Draft.moveTo loopBlock)
          let _ ← arm callees none (movedAll move body)
          let _ ← expression callees (step.moved move)
          Lowering.draft (Draft.jump condBlock)
          Lowering.draft (Draft.moveTo afterBlock)
          Pure.pure none) := fun _ =>
      .bind (.draft _) fun _ => .bind (arm_alike callees _ body) fun _ =>
        .bind (expression_alike callees step) fun _ => .bind (.draft _) fun _ =>
        .bind (.draft _) fun _ => .pure none
    cases value with
    | none => exact .bind (.draft _) hRest
    | some value => exact .bind (isTrue_alike value) fun _ => .bind (.draft _) hRest
  | .call _ callee arguments => by
    rw [Expr.moved, expression, expression, Name.text_moved]
    cases callees callee.text with
    | none => exact .bind (.report _ _) fun _ => .pure none
    | some target =>
      refine .bind (words_alike callees arguments) fun values => ?_
      cases values with
      | none => exact .pure none
      | some values => exact emitCall_alike callee target values

theorem arm_alike (callees : Callees) (value : Option Operand) :
    ∀ es : List Expr, Alike move (arm callees value es) (arm callees value (movedAll move es))
  | [] => by
    rw [movedAll, arm]
    exact .pure value
  | first :: rest => by
    rw [movedAll, arm, arm]
    exact .bind (expression_alike callees first) fun result => arm_alike callees result rest

theorem words_alike (callees : Callees) :
    ∀ es : List Expr, Alike move (words callees es) (words callees (movedAll move es))
  | [] => by
    rw [movedAll, words]
    exact .pure _
  | first :: rest => by
    rw [movedAll, words, words]
    have hRest : Alike move (words callees rest) (words callees (movedAll move rest)) := words_alike callees rest
    refine .bind (expression_alike callees first) fun result => ?_
    cases result with
    | none => exact .bind hRest fun _ => .pure none
    | some result =>
      refine .bind (toWord_alike result) fun value => .bind hRest fun values => ?_
      cases values with
      | none => exact .pure none
      | some values => exact .pure _

end

/-! ## Items -/

theorem bindParameters_alike (parameters : List (Name × RegisterId)) : Alike move (bindParameters parameters)
    (bindParameters (parameters.map (Prod.map (Name.moved move) id))) := by
  induction parameters with
  | nil => exact .pure _
  | cons first rest ih =>
    exact .bind (.draft _) fun _ => .bind (.draft _) fun _ => .bind (.modify fun _ => rfl) fun _ => ih

theorem definitionBody_alike (callees : Callees) (parameters : List (Name × RegisterId)) (e : Expr) :
    Alike move (definitionBody callees parameters e)
      (definitionBody callees (parameters.map (Prod.map (Name.moved move) id)) (e.moved move)) := by
  refine .bind (bindParameters_alike parameters) fun _ => .bind (expression_alike callees e) fun value => ?_
  cases value with
  | none => exact .pure none
  | some value => exact .bind (toWord_alike value) fun _ => .bind (.draft _) fun _ => .pure _

theorem duplicate?_moved (names : List Name) (seen : List String) :
    duplicate? seen (names.map (Name.moved move)) = (duplicate? seen names).map (Name.moved move) := by
  induction names generalizing seen with
  | nil => rfl
  | cons first rest ih =>
    rw [List.map_cons, duplicate?, duplicate?, Name.text_moved, ih]
    split <;> rfl

variable (state : Lowering)

theorem prototype_moved (head : Prototype) :
    state.prototype (head.moved move) = (state.prototype head).mapError (Diagnostic.moved move) := by
  unfold prototype
  simp only [Prototype.moved, Name.text_moved, duplicate?_moved, List.length_map]
  split
  · rfl
  · cases duplicate? [] head.parameters with
    | some parameter => rfl
    | none =>
      simp only [Option.map_none]
      split
      · split
        · rfl
        · split <;> rfl
      · rfl

/-- A prototype that is accepted is not reported. -/
theorem prototype_events_moved {head : Prototype} {target : FunctionId} {declared : Lowering}
    {events : List Event} (hOk : state.prototype head = .ok (target, declared, events)) :
    events.map (Event.moved move) = events := by
  have hNone : EventsPlaced (fun _ => False) events := prototype_ok_placed hOk
  have hSame : ∀ event ∈ events, event.moved move = id event := by
    intro event hMem
    cases event with
    | diagnostic problem => exact (hNone problem hMem).elim
    | declared name arity => rfl
    | lowered name => rfl
    | produced value => rfl
  rw [List.map_congr_left hSame, List.map_id]

theorem diagnostics_moved (problems : List Diagnostic) :
    (problems.map (Diagnostic.moved move)).map Event.diagnostic =
      (problems.map Event.diagnostic).map (Event.moved move) := by
  rw [List.map_map, List.map_map]
  rfl

theorem definition_moved (head : Prototype) (body : Expr) : state.definition (head.moved move) (body.moved move) =
    ((state.definition head body).1, (state.definition head body).2.map (Event.moved move)) := by
  rw [definition, definition, prototype_moved]
  cases hPrototype : state.prototype head with
  | error problem => rfl
  | ok result =>
    obtain ⟨target, declared, events⟩ := result
    have hEvents : events.map (Event.moved move) = events := prototype_events_moved state hPrototype
    simp only [Except.mapError]
    cases declared.assembly.get? target with
    | none => rw [hEvents]
    | some function =>
      have hZip : (head.moved move).parameters.zip function.parameters =
          (head.parameters.zip function.parameters).map (Prod.map (Name.moved move) id) := List.zip_map_left
      have hBody : Alike move _ (definitionBody _ _ (body.moved move)) :=
        definitionBody_alike declared.callees (head.parameters.zip function.parameters) body
      simp only [hZip, hBody.opened]
      generalize definitionBody declared.callees (head.parameters.zip function.parameters) body
        { draft := ⟨function.newBlock "entry", ⟨0⟩⟩ } = result
      obtain ⟨value, final⟩ := result
      cases value with
      | some value =>
        simp only [List.map_append, hEvents, Body.moved, diagnostics_moved]
        rfl
      | none =>
        simp only [List.map_append, hEvents, Body.moved, diagnostics_moved, Expr.span_moved]
        rfl

theorem topLevel_moved (body : Expr) : state.topLevel (body.moved move) =
    ((state.topLevel body).1, (state.topLevel body).2.map (Event.moved move)) := by
  rw [topLevel, topLevel]
  cases state.assembly.get? state.entry with
  | none => rfl
  | some function =>
    have hBody : Alike move _ (expression _ (body.moved move)) := expression_alike state.callees body
    simp only [hBody.opened]
    generalize expression state.callees body { draft := ⟨function, state.insertion⟩, scope := state.scope } = result
    obtain ⟨value, final⟩ := result
    simp only [List.map_append, Body.moved, diagnostics_moved]
    rfl

theorem item_moved (it : Item) : state.item (it.moved move) =
    ((state.item it).1, (state.item it).2.map (Event.moved move)) := by
  cases it with
  | declaration span head =>
    rw [Item.moved, item, item, prototype_moved]
    cases hPrototype : state.prototype head with
    | error problem => rfl
    | ok result => exact congrArg (Prod.mk result.2.1) (prototype_events_moved state hPrototype).symm
  | definition span head body => exact definition_moved state head body
  | expression body => exact topLevel_moved state body

theorem items_moved (program : List Item) : state.items (program.map (Item.moved move)) =
    ((state.items program).1, (state.items program).2.map (Event.moved move)) := by
  induction program generalizing state with
  | nil => rfl
  | cons first rest ih =>
    rw [List.map_cons, items, items, item_moved]
    simp only [ih, List.map_append]

end Lowering

theorem lowerProgram_moved (move : Move) (module : String) (program : List Item) :
    lowerProgram module (program.map (Item.moved move)) =
      ((lowerProgram module program).1, (lowerProgram module program).2.map (Event.moved move)) := by
  rw [lowerProgram, lowerProgram, Lowering.items_moved]

end Slate
