import Slate.Proofs.Lowering.Diagnostics
import Slate.Proofs.Lowering.Edits

/-! # Where bodies come from

A function other than the entry function has a body only if some definition of the program was lowered to it,
and from then on it stays as it is. The entry function comes from an empty one by the edits of all
top-level expressions. Slots are made for variables only, one for each, in the order of the variables.
-/

namespace Slate
set_option autoImplicit false

open Analysis (Overview)

/-- What the analysis knows after some items. -/
def Analysis.Overview.items (overview : Overview) : List Item → Overview
  | [] => overview
  | first :: rest => (overview.item first).1.items rest

/-- The names that an item assigns or binds. -/
def Item.targets : Item → List String
  | .declaration .. => []
  | .definition _ head body => head.parameters.map Name.text ++ body.targets
  | .expression body => body.targets

namespace Lowering

variable {width : Nat} {state : Lowering}

theorem Valid.callees_giveWords (h : state.Valid width) : state.callees.GiveWords := by
  intro name callee hCallee
  obtain ⟨id, hId, hRest⟩ := Option.bind_eq_some_iff.mp hCallee
  obtain ⟨f, hGet, hEq⟩ := Option.bind_eq_some_iff.mp hRest
  cases hEq
  change f.signature.result ≠ .i1
  by_cases hHost : id = ⟨0⟩
  · rw [hHost, h.host] at hGet
    cases hGet
    decide
  · have hEntry := (h.table name id hId).1
    rw [(h.written id f hGet hHost hEntry).signature]
    simp [Signature.ofArity]

/-! ## Definitions -/

/-- A definition is lowered to this function. -/
def LowersTo (state : Lowering) (head : Prototype) (e : Expr) (id : FunctionId) (f : Function) : Prop :=
  ∃ declared events value final, state.prototype head = .ok (id, declared, events) ∧
    declared.lowerBody head e = (some value, final) ∧ f = final.draft.function

theorem Valid.body_of_accepted (h : state.Valid width) {head : Prototype} {id key : FunctionId}
    {declared : Lowering} {events : List Event} (hOk : state.prototype head = .ok (id, declared, events))
    {f : Function} (hFound : declared.assembly.get? key = some f) (hBody : f.isDeclaration = false) :
    state.assembly.get? key = some f := by
  rcases h.accepted hOk with ⟨-, rfl, -⟩ | ⟨-, -, rfl, -⟩
  · exact hFound
  · rw [Assembly.get?_declare] at hFound
    split at hFound
    · cases hFound
      cases hBody
    · exact hFound

/-- The step lemma: an item leaves the bodies as they are, but for the one it defines. -/
theorem Valid.body_of_item (h : state.Valid width) {item : Item} {id : FunctionId} {f : Function}
    (hFound : (state.item item).1.assembly.get? id = some f) (hBody : f.isDeclaration = false)
    (hId : id ≠ state.entry) : state.assembly.get? id = some f ∨
      ∃ span head e, item = .definition span head e ∧ state.LowersTo head e id f := by
  cases item with
  | declaration span head =>
    rw [Lowering.item] at hFound
    cases hOk : state.prototype head with
    | error problem =>
      rw [hOk] at hFound
      exact .inl hFound
    | ok result =>
      rw [hOk] at hFound
      exact .inl (h.body_of_accepted hOk hFound hBody)
  | definition span head e =>
    rw [Lowering.item] at hFound
    rcases h.definition_cases head e with ⟨problem, -, hEq⟩ | ⟨key, declared, events, hOk, hCases⟩
    · rw [hEq] at hFound
      exact .inl hFound
    · rcases hCases with ⟨final, -, hEq⟩ | ⟨value, final, hFinal, hEq⟩
      · rw [hEq, Assembly.get?_discard, Function.withoutBody_bare] at hFound
        split at hFound
        · split at hFound
          · cases hFound
            cases hBody
          · cases hFound
        · exact .inl (h.body_of_accepted hOk hFound hBody)
      · rw [hEq, Assembly.get?_put] at hFound
        split at hFound
        · rename_i hKey
          cases hFound
          subst hKey
          exact .inr ⟨span, head, e, rfl, declared, events, value, final, hOk, hFinal, rfl⟩
        · exact .inl (h.body_of_accepted hOk hFound hBody)
  | expression e => exact .inl (((h.topLevel_keepsDefined e).others id hId).symm.trans hFound)

/-- The run lemma: every body was there at the start, or some item has defined it. -/
theorem Orderly.body_of_items (program : List Item) {state : Lowering} (h : state.Orderly width)
    (hWidth : ∀ item ∈ program, item.widest ≤ width) {id : FunctionId} {f : Function}
    (hFound : (state.items program).1.assembly.get? id = some f) (hBody : f.isDeclaration = false)
    (hId : id ≠ state.entry) : state.assembly.get? id = some f ∨
      ∃ before span head e after, program = before ++ .definition span head e :: after ∧
        (state.items before).1.LowersTo head e id f := by
  induction program generalizing state with
  | nil => exact .inl hFound
  | cons first rest ih =>
    rw [List.forall_mem_cons] at hWidth
    have hFirst := h.item hWidth.1
    rcases ih hFirst.orderly hWidth.2 hFound (hFirst.entry ▸ hId) with
      hOld | ⟨before, span, head, e, after, hProgram, hLowers⟩
    · rcases h.valid.body_of_item hOld hBody hId with hOld | ⟨span, head, e, rfl, hLowers⟩
      · exact .inl hOld
      · exact .inr ⟨[], span, head, e, rest, rfl, hLowers⟩
    · exact .inr ⟨first :: before, span, head, e, after, congrArg (first :: ·) hProgram, hLowers⟩

/-- A body of a definition is made by edits of an empty one. -/
theorem Valid.lowerBody_edits {declared : Lowering} (h : declared.Valid width) {allowed : String → Prop}
    {head : Prototype} (hDistinct : (head.parameters.map Name.text).Nodup) {e : Expr}
    (hAllowed : ∀ name ∈ head.parameters.map Name.text ++ e.targets, allowed name) :
    Edits allowed (opened head.name.text head.parameters.length).view (declared.lowerBody head e).2.view := by
  rw [List.forall_mem_append] at hAllowed
  refine definitionBody_edits h.callees_giveWords _ ?_ (fun _ _ => rfl) ?_ hAllowed.2
  · rw [map_zip_parameters head Name.text]
    exact hDistinct
  · intro parameter hMem
    exact hAllowed.1 _ (List.mem_map_of_mem (List.of_mem_zip hMem).1)

theorem LowersTo.edits {allowed : String → Prop} {head : Prototype} {e : Expr} {id : FunctionId} {f : Function}
    (h : state.LowersTo head e id f) (hValid : state.Valid width)
    (hAllowed : ∀ name ∈ head.parameters.map Name.text ++ e.targets, allowed name) :
    ∃ scope, Edits allowed (opened head.name.text head.parameters.length).view (f, scope) := by
  obtain ⟨declared, events, value, final, hOk, hFinal, rfl⟩ := h
  have hEdits := (hValid.prototype hOk).1.lowerBody_edits (hValid.nodup_of_accepted hOk) hAllowed
  rw [hFinal] at hEdits
  exact ⟨final.scope, hEdits⟩

/-! ## The entry function -/

theorem Orderly.entry_of_item (h : state.Orderly width) {item : Item} (hWidth : item.widest ≤ width)
    {allowed : String → Prop} (hAllowed : ∀ name ∈ item.targets, allowed name) {f : Function}
    (hFound : state.assembly.get? state.entry = some f) :
    ∃ g, (state.item item).1.assembly.get? state.entry = some g ∧
      Edits allowed (f, state.scope) (g, (state.item item).1.scope) := by
  cases item with
  | declaration span head =>
    rw [Lowering.item]
    cases hOk : state.prototype head with
    | error problem => exact ⟨f, hFound, .refl⟩
    | ok result =>
      have hKeeps := h.valid.prototype_keepsOthers hOk
      change ∃ g, result.2.1.assembly.get? state.entry = some g ∧ Edits allowed _ (g, result.2.1.scope)
      rw [hKeeps.main, hKeeps.scope]
      exact ⟨f, hFound, .refl⟩
  | definition span head e =>
    have hKeeps := h.valid.definition_keepsOthers head hWidth
    change ∃ g, (state.definition head e).1.assembly.get? state.entry = some g ∧
      Edits allowed _ (g, (state.definition head e).1.scope)
    rw [hKeeps.main, hKeeps.scope]
    exact ⟨f, hFound, .refl⟩
  | expression e =>
    have hEdits := expression_stepwise h.valid.callees_giveWords e hAllowed
      ⟨⟨f, state.insertion⟩, state.scope, []⟩
    change ∃ g, (state.topLevel e).1.assembly.get? state.entry = some g ∧
      Edits allowed _ (g, (state.topLevel e).1.scope)
    cases hFinal : expression state.callees e ⟨⟨f, state.insertion⟩, state.scope, []⟩ with
    | mk value final =>
      rw [hFinal] at hEdits
      rw [topLevel_eq hFound e hFinal]
      exact ⟨final.draft.function, (Assembly.get?_put _ _ _ _).trans (if_pos rfl), hEdits⟩

theorem Orderly.entry_of_items (program : List Item) {state : Lowering} (h : state.Orderly width)
    (hWidth : ∀ item ∈ program, item.widest ≤ width) {allowed : String → Prop}
    (hAllowed : ∀ item ∈ program, ∀ name ∈ item.targets, allowed name) {f : Function}
    (hFound : state.assembly.get? state.entry = some f) :
    ∃ g, (state.items program).1.assembly.get? state.entry = some g ∧
      Edits allowed (f, state.scope) (g, (state.items program).1.scope) := by
  induction program generalizing state f with
  | nil => exact ⟨f, hFound, .refl⟩
  | cons first rest ih =>
    rw [List.forall_mem_cons] at hWidth hAllowed
    have hFirst := h.item hWidth.1
    obtain ⟨g, hGet, hEdits⟩ := h.entry_of_item hWidth.1 hAllowed.1 hFound
    rw [← hFirst.entry] at hGet
    obtain ⟨k, hGet', hEdits'⟩ := ih hFirst.orderly hWidth.2 hAllowed.2 hGet
    rw [hFirst.entry] at hGet'
    exact ⟨k, hGet', hEdits.trans hEdits'⟩

/-! ## Slots and variables -/

/-- A function has one slot for each variable, in the order in which they came into the scope. -/
def Scoped (view : Function × Scope) : Prop :=
  view.1.slots.toList = (view.2.entries.map Prod.fst).reverse.map fun name => { ty := .i32, name }

theorem Edit.scoped {allowed : String → Prop} {before after : Function × Scope} (h : Edit allowed before after)
    (hBefore : Scoped before) : Scoped after := by
  cases h with
  | block f scope known => exact hBefore
  | slot f scope allows fresh =>
    rw [Scoped] at hBefore ⊢
    change (f.slots.push _).toList = _
    rw [Table.toList_push, NameTable.entries_insert_of_fresh fresh, List.map_cons, List.reverse_cons,
      List.map_append, hBefore]
    rfl
  | plain f scope at_ destination alloca =>
    rw [Scoped, Function.slots_add]
    exact hBefore
  | result f scope at_ destination typed =>
    rw [Scoped, Function.slots_add]
    exact hBefore

theorem Edits.scoped {allowed : String → Prop} {before after : Function × Scope} (h : Edits allowed before after)
    (hBefore : Scoped before) : Scoped after :=
  h.invariant (fun _ _ => Edit.scoped) hBefore

/-! ## The analysis after some items -/

theorem Analyzed.after_items (program : List Item) {state : Lowering} {overview : Overview}
    (h : Analyzed state overview) (hOrderly : state.Orderly width)
    (hWidth : ∀ item ∈ program, item.widest ≤ width) :
    Analyzed (state.items program).1 (overview.items program) := by
  induction program generalizing state overview with
  | nil => exact h
  | cons first rest ih =>
    rw [List.forall_mem_cons] at hWidth
    exact ih (h.item hOrderly hWidth.1).analyzed (hOrderly.item hWidth.1).orderly hWidth.2

/-! ## Finished modules -/

theorem get?_finish_entry {f : Function} (h : state.assembly.get? state.entry = some f) :
    state.finish.get? state.entry = some (f.add state.insertion (.ret none)) := by
  rw [Lowering.finish, h, Function.add_eq_append _ _ rfl]
  exact (Assembly.get?_put _ _ _ _).trans (if_pos rfl)

theorem lowerProgram_entry (module : String) {program : List Item} {allowed : String → Prop}
    (hAllowed : ∀ item ∈ program, ∀ name ∈ item.targets, allowed name) :
    ∃ f, (lowerProgram module program).1.get? ⟨1⟩ = some f ∧
      Edits allowed (emptyEntry, .empty) (f, ((start module).items program).1.scope) := by
  have hWidth : ∀ item ∈ program, item.widest ≤ widestItem program := fun _ => widest_le_widestItem
  have hStart := start_orderly (widestItem program) module
  have hEntry : ((start module).items program).1.entry = ⟨1⟩ :=
    (Valid.items program hStart.valid hWidth).entry_eq
  obtain ⟨g, hGet, hEdits⟩ := hStart.entry_of_items program hWidth hAllowed (get?_start module ⟨1⟩)
  have hGet' : ((start module).items program).1.assembly.get? ((start module).items program).1.entry =
      some g := by
    rw [hEntry]
    exact hGet
  have hFinish := get?_finish_entry hGet'
  rw [hEntry] at hFinish
  exact ⟨_, hFinish, hEdits.tail (.plain _ _ _ rfl rfl)⟩

/-- Every other body comes from a definition. -/
theorem lowerProgram_body {module : String} {program : List Item} {id : FunctionId} {f : Function}
    (hFound : (lowerProgram module program).1.get? id = some f) (hBody : f.isDeclaration = false)
    (hId : id ≠ ⟨1⟩) : ∃ before span head e after, program = before ++ .definition span head e :: after ∧
      ((start module).items before).1.LowersTo head e id f := by
  have hWidth : ∀ item ∈ program, item.widest ≤ widestItem program := fun _ => widest_le_widestItem
  have hStart := start_orderly (widestItem program) module
  have hItems := Valid.items program hStart.valid hWidth
  have hGet : ((start module).items program).1.assembly.get? id = some f :=
    (hItems.get?_finish (hItems.entry_eq ▸ hId)).symm.trans hFound
  rcases hStart.body_of_items program hWidth hGet hBody hId with hOld | hDefined
  · rw [get?_start, if_neg hId] at hOld
    split at hOld
    · cases hOld
      cases hBody
    · cases hOld
  · exact hDefined

end Lowering
end Slate
