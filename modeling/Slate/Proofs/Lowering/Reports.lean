import Slate.Lowering
import Slate.Proofs.Lowering.Actions

/-! # Where problems are reported

Lowering reports problems only at names, heads and bodies of the items. So whatever holds of the spans of
those holds of the spans of all reports.
-/

namespace Slate
set_option autoImplicit false

variable {at_ : Span → Prop}

/-! ## Places of a tree -/

mutual

/-- All names that an expression uses stand at such places. -/
def Expr.Placed (at_ : Span → Prop) : Expr → Prop
  | .int _ _ => True
  | .binary _ _ lhs rhs | .compare _ _ lhs rhs => lhs.Placed at_ ∧ rhs.Placed at_
  | .variable _ name => at_ name.span
  | .assign _ _ value => value.Placed at_
  | .branch _ condition positive negative =>
    condition.Placed at_ ∧ AllPlaced at_ positive ∧ AllPlaced at_ negative
  | .loop _ initializer condition step body =>
    initializer.Placed at_ ∧ condition.Placed at_ ∧ step.Placed at_ ∧ AllPlaced at_ body
  | .call _ callee arguments => at_ callee.span ∧ AllPlaced at_ arguments

def AllPlaced (at_ : Span → Prop) : List Expr → Prop
  | [] => True
  | first :: rest => first.Placed at_ ∧ AllPlaced at_ rest

end

structure Prototype.Placed (at_ : Span → Prop) (head : Prototype) : Prop where
  whole : at_ head.span
  name : at_ head.name.span
  parameters : ∀ parameter ∈ head.parameters, at_ parameter.span

def Item.Placed (at_ : Span → Prop) : Item → Prop
  | .declaration _ head => head.Placed at_
  | .definition _ head body => head.Placed at_ ∧ at_ body.span ∧ body.Placed at_
  | .expression body => body.Placed at_

namespace Lowering

/-! ## Reports of an action -/

/-- An action that adds reports at such places only. -/
def Reports (at_ : Span → Prop) {α : Type} (action : Lower α) : Prop :=
  ∀ body, (∀ problem ∈ body.diagnostics, at_ problem.span) →
    ∀ problem ∈ (action body).2.diagnostics, at_ problem.span

namespace Reports

variable {α β : Type}

theorem pure (value : α) : Reports at_ (Pure.pure value) := fun _ h => h

theorem bind {action : Lower α} {next : α → Lower β} (h : Reports at_ action)
    (hNext : ∀ value, Reports at_ (next value)) : Reports at_ (action >>= next) :=
  fun body hBody => hNext _ _ (h body hBody)

theorem map (f : α → β) {action : Lower α} (h : Reports at_ action) : Reports at_ (f <$> action) :=
  fun body hBody => h body hBody

theorem ite {condition : Prop} [Decidable condition] {yes no : Lower α} (hYes : Reports at_ yes)
    (hNo : Reports at_ no) : Reports at_ (if condition then yes else no) := by
  split
  · exact hYes
  · exact hNo

theorem draft (action : StateM Draft α) : Reports at_ (Lowering.draft action) := fun _ h => h

theorem get : Reports at_ (MonadState.get : Lower Body) := fun _ h => h

theorem modify {f : Body → Body} (h : ∀ body, (f body).diagnostics = body.diagnostics) :
    Reports at_ (modifyThe Body f) := by
  intro body hBody
  change ∀ problem ∈ (f body).diagnostics, _
  rw [h]
  exact hBody

theorem report {span : Span} (complaint : Complaint) (h : at_ span) :
    Reports at_ (Lowering.report complaint span) := by
  intro body hBody problem hProblem
  rcases List.mem_append.mp hProblem with hOld | hNew
  · exact hBody problem hOld
  · rw [List.mem_singleton.mp hNew]
    exact h

end Reports

theorem toWord_reports (value : Operand) : Reports at_ (toWord value) :=
  .bind (.bind (.draft _) fun _ => .pure _) fun _ => .ite (.draft _) (.pure _)

theorem slotFor_reports (name : String) : Reports at_ (slotFor name) := by
  refine .bind .get fun body => ?_
  cases body.scope.find? name with
  | some slot => exact .pure slot
  | none => exact .bind (.draft _) fun slot => .bind (.modify fun _ => rfl) fun _ => .pure slot

theorem readVariable_reports {name : Name} (h : at_ name.span) : Reports at_ (readVariable name) := by
  refine .bind .get fun body => ?_
  cases body.scope.find? name.text with
  | some slot => exact .bind (.draft _) fun _ => .pure _
  | none => exact .bind (.report _ h) fun _ => .pure none

theorem isTruthy_reports (value : Operand) : Reports at_ (isTruthy value) :=
  .bind (.bind (.draft _) fun _ => .pure _) fun _ => .ite (.draft _) (.draft _)

theorem isTrue_reports (value : Operand) : Reports at_ (isTrue value) :=
  .bind (.bind (.draft _) fun _ => .pure _) fun _ => .ite (.draft _) (.draft _)

theorem wordPair_reports (lhs rhs : Option Operand) : Reports at_ (wordPair lhs rhs) := by
  cases lhs with
  | none => exact .pure none
  | some left =>
    refine .bind (toWord_reports left) fun first => ?_
    cases rhs with
    | none => exact .pure none
    | some right => exact .bind (toWord_reports right) fun _ => .pure _

theorem emitCall_reports {name : Name} (h : at_ name.span) (callee : Callee) (arguments : List Operand) :
    Reports at_ (emitCall name callee arguments) :=
  .ite (.draft _) (.bind (.report _ h) fun _ => .pure none)

theorem unify_reports (thenExit elseExit : BlockId) (thenValue elseValue : Operand) :
    Reports at_ (unify thenExit elseExit thenValue elseValue) :=
  .bind (.draft _) fun _ => .bind (.draft _) fun _ => .ite (.pure _)
    (.bind (.draft _) fun _ => .bind (toWord_reports _) fun _ =>
      .bind (.draft _) fun _ => .bind (toWord_reports _) fun _ => .pure _)

theorem incoming_reports (thenExit elseExit : BlockId) (thenValue elseValue : Option Operand) :
    Reports at_ (incoming thenExit elseExit thenValue elseValue) := by
  cases thenValue with
  | none => exact .pure none
  | some first =>
    cases elseValue with
    | none => exact .pure none
    | some second => exact .map _ (unify_reports thenExit elseExit first second)

theorem conclude_reports (thenExit elseExit : BlockId) (values : Option (Operand × Operand)) :
    Reports at_ (conclude thenExit elseExit values) := by
  cases values with
  | none => exact .pure none
  | some pair => exact .bind (.draft _) fun _ => .bind (.draft _) fun _ => .pure _

theorem merge_reports (thenExit elseExit : BlockId) (thenValue elseValue : Option Operand) :
    Reports at_ (merge thenExit elseExit thenValue elseValue) := by
  intro body hBody
  rw [merge_eq]
  apply conclude_reports
  rw [Body.diagnostics_join]
  apply incoming_reports
  exact hBody

mutual

theorem expression_reports (callees : Callees) : ∀ e : Expr, e.Placed at_ → Reports at_ (expression callees e)
  | .int _ value, _ => by
    rw [expression]
    exact .pure _
  | .binary _ op lhs rhs, h => by
    rw [Expr.Placed] at h
    rw [expression]
    refine .bind (expression_reports callees lhs h.1) fun left => .bind (expression_reports callees rhs h.2)
      fun right => .bind (wordPair_reports left right) fun pair => ?_
    cases pair with
    | none => exact .pure none
    | some operands => exact .bind (.draft _) fun _ => .pure _
  | .compare _ op lhs rhs, h => by
    rw [Expr.Placed] at h
    rw [expression]
    refine .bind (expression_reports callees lhs h.1) fun left => .bind (expression_reports callees rhs h.2)
      fun right => .bind (wordPair_reports left right) fun pair => ?_
    cases pair with
    | none => exact .pure none
    | some operands => exact .bind (.draft _) fun _ => .pure _
  | .variable _ name, h => by
    rw [Expr.Placed] at h
    rw [expression]
    exact readVariable_reports h
  | .assign _ target value, h => by
    rw [Expr.Placed] at h
    rw [expression]
    refine .bind (slotFor_reports _) fun slot => .bind (expression_reports callees value h) fun result => ?_
    cases result with
    | none => exact .pure none
    | some result => exact .bind (toWord_reports result) fun _ => .bind (.draft _) fun _ => .pure _
  | .branch _ condition positive negative, h => by
    rw [Expr.Placed] at h
    rw [expression]
    refine .bind (expression_reports callees condition h.1) fun value => ?_
    cases value with
    | none => exact .pure none
    | some value =>
      exact .bind (isTruthy_reports value) fun _ => .bind (.draft _) fun _ => .bind (.draft _) fun _ =>
        .bind (.draft _) fun _ => .bind (.draft _) fun _ => .bind (arm_reports callees _ positive h.2.1) fun _ =>
        .bind (.draft _) fun _ => .bind (.draft _) fun _ => .bind (arm_reports callees _ negative h.2.2) fun _ =>
        .bind (.draft _) fun _ => merge_reports _ _ _ _
  | .loop _ initializer condition step body, h => by
    rw [Expr.Placed] at h
    rw [expression]
    refine .bind (expression_reports callees initializer h.1) fun _ => .bind (.draft _) fun condBlock =>
      .bind (.draft _) fun loopBlock => .bind (.draft _) fun afterBlock => .bind (.draft _) fun _ =>
      .bind (.draft _) fun _ => .bind (expression_reports callees condition h.2.1) fun value => ?_
    -- both ways out of the condition go on with the body
    have hRest : ∀ _ : PUnit, Reports at_ (do
        Lowering.draft (Draft.moveTo loopBlock)
        let _ ← arm callees none body
        let _ ← expression callees step
        Lowering.draft (Draft.jump condBlock)
        Lowering.draft (Draft.moveTo afterBlock)
        Pure.pure none : Lower (Option Operand)) := fun _ =>
      .bind (.draft _) fun _ => .bind (arm_reports callees _ body h.2.2.2) fun _ =>
        .bind (expression_reports callees step h.2.2.1) fun _ => .bind (.draft _) fun _ =>
        .bind (.draft _) fun _ => .pure none
    cases value with
    | none => exact .bind (.draft _) hRest
    | some value => exact .bind (isTrue_reports value) fun _ => .bind (.draft _) hRest
  | .call _ callee arguments, h => by
    rw [Expr.Placed] at h
    rw [expression]
    cases callees callee.text with
    | none => exact .bind (.report _ h.1) fun _ => .pure none
    | some target =>
      refine .bind (words_reports callees arguments h.2) fun values => ?_
      cases values with
      | none => exact .pure none
      | some values => exact emitCall_reports h.1 target values

theorem arm_reports (callees : Callees) (value : Option Operand) :
    ∀ es : List Expr, AllPlaced at_ es → Reports at_ (arm callees value es)
  | [], _ => by
    rw [arm]
    exact .pure value
  | first :: rest, h => by
    rw [AllPlaced] at h
    rw [arm]
    exact .bind (expression_reports callees first h.1) fun result => arm_reports callees result rest h.2

theorem words_reports (callees : Callees) :
    ∀ es : List Expr, AllPlaced at_ es → Reports at_ (words callees es)
  | [], _ => by
    rw [words]
    exact .pure _
  | first :: rest, h => by
    rw [AllPlaced] at h
    rw [words]
    have hRest := words_reports callees rest h.2
    refine .bind (expression_reports callees first h.1) fun result => ?_
    cases result with
    | none => exact .bind hRest fun _ => .pure none
    | some result =>
      refine .bind (toWord_reports result) fun value => .bind hRest fun values => ?_
      cases values with
      | none => exact .pure none
      | some values => exact .pure _

end

/-! ## Reports of items -/

theorem bindParameters_reports (parameters : List (Name × RegisterId)) :
    Reports at_ (bindParameters parameters) := by
  induction parameters with
  | nil => exact .pure _
  | cons first rest ih =>
    exact .bind (.draft _) fun _ => .bind (.draft _) fun _ => .bind (.modify fun _ => rfl) fun _ => ih

theorem definitionBody_reports (callees : Callees) (parameters : List (Name × RegisterId)) {e : Expr}
    (h : e.Placed at_) : Reports at_ (definitionBody callees parameters e) := by
  refine .bind (bindParameters_reports parameters) fun _ =>
    .bind (expression_reports callees e h) fun value => ?_
  cases value with
  | none => exact .pure none
  | some value => exact .bind (toWord_reports value) fun _ => .bind (.draft _) fun _ => .pure _

theorem mem_of_duplicate? {seen : List String} {names : List Name} {name : Name}
    (h : duplicate? seen names = some name) : name ∈ names := by
  induction names generalizing seen with
  | nil => cases h
  | cons first rest ih =>
    rw [duplicate?] at h
    split at h
    · cases h
      exact List.mem_cons_self
    · exact List.mem_cons_of_mem _ (ih h)

/-- All reports among the events are at such places. -/
def EventsPlaced (at_ : Span → Prop) (events : List Event) : Prop :=
  ∀ problem, .diagnostic problem ∈ events → at_ problem.span

theorem EventsPlaced.append {events others : List Event} (h : EventsPlaced at_ events)
    (hOthers : EventsPlaced at_ others) : EventsPlaced at_ (events ++ others) := by
  intro problem hMem
  rcases List.mem_append.mp hMem with hMem | hMem
  · exact h problem hMem
  · exact hOthers problem hMem

theorem EventsPlaced.diagnostic {problem : Diagnostic} (h : at_ problem.span) :
    EventsPlaced at_ [.diagnostic problem] := by
  intro other hMem
  cases List.mem_singleton.mp hMem
  exact h

theorem EventsPlaced.map {problems : List Diagnostic} (h : ∀ problem ∈ problems, at_ problem.span) :
    EventsPlaced at_ (problems.map .diagnostic) := by
  intro problem hMem
  obtain ⟨other, hOther, hEq⟩ := List.mem_map.mp hMem
  cases hEq
  exact h problem hOther

theorem EventsPlaced.singleton {event : Event} (h : event.diagnostic? = none) : EventsPlaced at_ [event] := by
  intro problem hMem
  cases List.mem_singleton.mp hMem
  cases h

variable {state : Lowering}

theorem prototype_error_placed {head : Prototype} {problem : Diagnostic} (h : head.Placed at_)
    (hError : state.prototype head = .error problem) : at_ problem.span := by
  unfold prototype at hError
  simp only at hError
  split at hError
  · cases hError
    exact h.name
  · split at hError
    · rename_i hDuplicate
      cases hError
      exact h.parameters _ (mem_of_duplicate? hDuplicate)
    · split at hError
      · split at hError
        · cases hError
          exact h.name
        · split at hError
          · cases hError
            exact h.whole
          · cases hError
      · cases hError

theorem prototype_ok_placed {head : Prototype} {id : FunctionId} {declared : Lowering} {events : List Event}
    (hOk : state.prototype head = .ok (id, declared, events)) : EventsPlaced at_ events := by
  unfold prototype at hOk
  simp only at hOk
  split at hOk
  · cases hOk
  · split at hOk
    · cases hOk
    · split at hOk
      · split at hOk
        · cases hOk
        · split at hOk
          · cases hOk
          · cases hOk
            exact fun _ hMem => absurd hMem List.not_mem_nil
      · cases hOk
        exact .singleton rfl

theorem item_placed (state : Lowering) {it : Item} (h : it.Placed at_) : EventsPlaced at_ (state.item it).2 := by
  cases it with
  | declaration span head =>
    rw [item]
    cases hPrototype : state.prototype head with
    | error problem => exact .diagnostic (prototype_error_placed h hPrototype)
    | ok result => exact prototype_ok_placed hPrototype
  | definition span head body =>
    obtain ⟨hHead, hWhole, hBody⟩ := h
    rw [item, definition]
    cases hPrototype : state.prototype head with
    | error problem => exact .diagnostic (prototype_error_placed hHead hPrototype)
    | ok result =>
      obtain ⟨id, declared, events⟩ := result
      have hEvents : EventsPlaced at_ events := prototype_ok_placed hPrototype
      simp only
      cases declared.assembly.get? id with
      | none => exact hEvents
      | some function =>
        have hReports := definitionBody_reports declared.callees (head.parameters.zip function.parameters) hBody
          { draft := ⟨function.newBlock "entry", ⟨0⟩⟩ } (List.forall_mem_nil _)
        simp only
        generalize definitionBody declared.callees (head.parameters.zip function.parameters) body
          { draft := ⟨function.newBlock "entry", ⟨0⟩⟩ } = result at hReports ⊢
        obtain ⟨value, final⟩ := result
        cases value with
        | some value => exact (hEvents.append (.map hReports)).append (.singleton rfl)
        | none => exact (hEvents.append (.map hReports)).append (.diagnostic hWhole)
  | expression body =>
    rw [item, topLevel]
    cases state.assembly.get? state.entry with
    | none => exact fun _ hMem => absurd hMem List.not_mem_nil
    | some function =>
      have hReports := expression_reports state.callees body h
        { draft := ⟨function, state.insertion⟩, scope := state.scope } (List.forall_mem_nil _)
      exact (EventsPlaced.map hReports).append (.singleton rfl)

theorem items_placed (state : Lowering) {program : List Item} (h : ∀ it ∈ program, it.Placed at_) :
    EventsPlaced at_ (state.items program).2 := by
  induction program generalizing state with
  | nil => exact fun _ hMem => absurd hMem List.not_mem_nil
  | cons first rest ih =>
    rw [List.forall_mem_cons] at h
    exact (item_placed state h.1).append (ih _ h.2)

end Lowering
end Slate
