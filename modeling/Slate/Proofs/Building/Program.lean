import Slate.Proofs.Building.Body

/-! # Lowering programs through a builder

Items are lowered one after the other into one builder. The cursor is set anew for every item, so it
does not matter that a discarded definition takes it away. No item fails, and the module in the end is
that of `lowerProgram`.
-/

namespace Slate
set_option autoImplicit false

namespace Building

open Lowering (Body Lower isReserved duplicate?)

/-- A program of which some items are lowered. -/
structure Stage where
  builder : Builder
  functions : NameTable FunctionId
  entry : FunctionId
  /-- The first block of the entry function. -/
  first : BlockRef
  /-- Where the next top-level expression goes on. -/
  insertion : BlockRef
  scope : NameTable SlotRef := .empty

def declareHost (functions : NameTable FunctionId) (host : HostFunction) :
    Build (NameTable FunctionId) := do
  let id ← Builder.declare host.symbol host.signature .external
  return functions.insert host.name id

/-- Opens the entry function in its first block. -/
def openEntry : Build (FunctionId × BlockRef) := do
  let entry ← Builder.declare entryName { parameters := [], result := .void } .internal
  let block ← Builder.createBlock entry "entry"
  Builder.setInsertionPoint block
  return (entry, ← StateT.lift (← Builder.entryBlock entry))

def start (module : String) : Option Stage := do
  let (functions, hosts) ← hostFunctions.foldlM declareHost .empty (.new module)
  let ((entry, first), builder) ← openEntry hosts
  return { builder, functions, entry, first, insertion := first }

def declared? (functions : NameTable FunctionId) (name : String) : Build (Option FunctionId) :=
  match functions.find? name with
  | some id => return some id
  | none => Builder.lookup name

def prototype (functions : NameTable FunctionId) (head : Prototype) :
    Build (Except Diagnostic (FunctionId × NameTable FunctionId × List Event)) := do
  let name := head.name.text
  let arity := head.parameters.length
  if isReserved name then return .error ⟨.reservedName name, head.name.span⟩
  else match duplicate? [] head.parameters with
  | some parameter => return .error ⟨.duplicateParameter parameter.text name, parameter.span⟩
  | none =>
    match ← declared? functions name with
    | some id =>
      if ← Builder.hasBody id then return .error ⟨.alreadyDefined name, head.name.span⟩
      else
        let declared := (← Builder.signature id).parameters.length
        if declared ≠ arity then return .error ⟨.arityChanged name declared arity, head.span⟩
        else return .ok (id, functions.insert name id, [])
    | none =>
      let id ← Builder.declare name (.ofArity arity) .external
      return .ok (id, functions.insert name id, [.declared name arity])

/-- Stores the arguments from the given position on in slots named after the parameters. -/
def bindParameters (owner : FunctionId) (entry : BlockRef) : Nat → List Name → Make Unit
  | _, [] => return
  | index, name :: rest => do
    let slot ← build (Builder.alloca entry { ty := .i32, name := name.text })
    let argument ← build (Builder.parameter owner index)
    build (Builder.store slot argument)
    modify fun site => { site with scope := site.scope.insert name.text slot }
    bindParameters owner entry (index + 1) rest

def definitionBody (functions : NameTable FunctionId) (owner : FunctionId) (entry : BlockRef)
    (parameters : List Name) (body : Expr) : Make (Option Operand) := do
  bindParameters owner entry 0 parameters
  match ← expression functions owner entry body with
  | none => return none
  | some value =>
    let result ← toWord value
    build (Builder.ret (some result))
    return some result

/-- Gives a function its first block and goes there. -/
def openBody (owner : FunctionId) : Build BlockRef := do
  let entry ← Builder.createBlock owner "entry"
  Builder.setInsertionPoint entry
  return entry

def definition (stage : Stage) (head : Prototype) (body : Expr) : Option (Stage × List Event) := do
  match ← prototype stage.functions head stage.builder with
  | (.error problem, builder) => return ({ stage with builder }, [.diagnostic problem])
  | (.ok (id, functions, events), declared) =>
    let (entry, builder) ← openBody id declared
    let (value, site) ← definitionBody functions id entry head.parameters body { builder }
    let reported := events ++ site.diagnostics.map .diagnostic
    match value with
    | some _ =>
      return ({ stage with builder := site.builder, functions }, reported ++ [.lowered head.name.text])
    | none =>
      let ((), builder) ← Builder.discard id site.builder
      return ({ stage with builder, functions := functions.erase head.name.text },
        reported ++ [.diagnostic ⟨.malformedBody head.name.text, body.span⟩])

def topLevel (stage : Stage) (body : Expr) : Option (Stage × List Event) := do
  let ((), builder) ← Builder.setInsertionPoint stage.insertion stage.builder
  let (value, site) ← expression stage.functions stage.entry stage.first body
    { builder, scope := stage.scope }
  let (insertion, final) ← Builder.insertionBlock site.builder
  return ({ stage with builder := final, insertion, scope := site.scope },
    site.diagnostics.map .diagnostic ++ [.produced value])

def item (stage : Stage) : Item → Option (Stage × List Event)
  | .declaration _ head => do
    match ← prototype stage.functions head stage.builder with
    | (.error problem, builder) => return ({ stage with builder }, [.diagnostic problem])
    | (.ok (_, functions, events), builder) => return ({ stage with builder, functions }, events)
  | .definition _ head body => definition stage head body
  | .expression body => topLevel stage body

def items (stage : Stage) : List Item → Option (Stage × List Event)
  | [] => some (stage, [])
  | first :: rest => do
    let (next, events) ← item stage first
    let (final, others) ← items next rest
    return (final, events ++ others)

def finish (stage : Stage) : Option Module := do
  let ((), builder) ← Builder.setInsertionPoint stage.insertion stage.builder
  let ((), final) ← Builder.ret none builder
  return final.module

/-- A program as a module, unless some step of the builder fails. -/
def lower (module : String) (program : List Item) : Option (Module × List Event) := do
  let stage ← start module
  let (final, events) ← items stage program
  return (← finish final, events)

/-- A stage that has come as far as the items of a `Lowering`. -/
structure Reaches (state : Lowering) (stage : Stage) : Prop where
  assembly : stage.builder.assembly = state.assembly
  functions : stage.functions = state.functions
  entry : stage.entry = state.entry
  first : stage.first = ⟨state.entry, ⟨0⟩⟩
  insertion : stage.insertion = ⟨state.entry, state.insertion⟩
  scope : ∀ name, stage.scope.find? name = (state.scope.find? name).map (SlotRef.mk state.entry)

theorem start_reaches (module : String) :
    ∃ stage, start module = some stage ∧ Reaches (Lowering.start module) stage :=
  ⟨_, rfl, rfl, rfl, rfl, rfl, rfl, fun _ => rfl⟩

section Prototype

variable {width : Nat} {state : Lowering} (h : state.Valid width) {builder : Builder}
  (hAssembly : builder.assembly = state.assembly)
include hAssembly

theorem declared?_eq (name : String) :
    declared? state.functions name builder = some (state.declared? name, builder) := by
  rw [declared?, Lowering.declared?]
  cases state.functions.find? name with
  | some id => rfl
  | none =>
    rw [← hAssembly]
    rfl

theorem hasBody_eq {id : FunctionId} {f : Function} (hGet : state.assembly.get? id = some f) :
    Builder.hasBody id builder = some (!f.isDeclaration, builder) :=
  run_bind (function_eq (hAssembly ▸ hGet))

theorem signature_eq {id : FunctionId} {f : Function} (hGet : state.assembly.get? id = some f) :
    Builder.signature id builder = some (f.signature, builder) :=
  run_bind (function_eq (hAssembly ▸ hGet))

include h

/-- Declaring a function does not fail: a function of the name that is looked up is there. -/
theorem prototype_eq (head : Prototype) :
    prototype state.functions head builder = some (match state.prototype head with
      | .error problem => (.error problem, builder)
      | .ok (id, declared, events) =>
        (.ok (id, declared.functions, events), { builder with assembly := declared.assembly })) := by
  rw [prototype, Lowering.prototype]
  by_cases hReserved : isReserved head.name.text = true
  · simp only [hReserved, if_true]
    rfl
  · rw [Bool.not_eq_true] at hReserved
    simp only [hReserved, Bool.false_eq_true, if_false]
    cases duplicate? [] head.parameters with
    | some parameter => rfl
    | none =>
      simp only
      rw [run_bind (declared?_eq hAssembly _)]
      cases hDeclared : state.declared? head.name.text with
      | none =>
        rw [Option.bind_none]
        change some (_, (⟨_, _⟩ : Builder)) = _
        rw [hAssembly]
      | some id =>
        obtain ⟨f, hGet, _⟩ := h.declared?_eq_some hReserved hDeclared
        simp only [Option.bind_some, hGet, Option.map_some]
        rw [run_bind (hasBody_eq hAssembly hGet)]
        by_cases hBody : f.isDeclaration = true
        · simp only [hBody, Bool.not_true, Bool.false_eq_true, if_false]
          rw [run_bind (signature_eq hAssembly hGet)]
          by_cases hArity : f.signature.parameters.length = head.parameters.length
          · simp only [hArity, ne_eq, not_true_eq_false, if_false]
            rw [← hAssembly]
            rfl
          · simp only [hArity, ne_eq, not_false_eq_true, if_true]
            rfl
        · simp only [Bool.not_eq_true] at hBody
          simp only [hBody, Bool.not_false, if_true]
          rfl

end Prototype

section Definition

variable {assembly : Assembly} {owner : FunctionId} {body : Body}

theorem parameter_eq {index : Nat} {register : RegisterId}
    (hRegister : body.draft.function.parameters[index]? = some register) :
    Builder.parameter owner index (showing assembly owner body.draft) =
      some (.register register, showing assembly owner body.draft) := by
  rw [Builder.parameter, run_bind (function_eq (get?_showing _ _ _))]
  refine run_bind ?_
  change (body.draft.function.parameters[index]?).bind (fun found => some (found, _)) = _
  rw [hRegister]
  rfl

/-- The parameters from a position on. -/
theorem bindParameters_builds (names : List Name) (index : Nat) (body : Body)
    (hLength : index + names.length ≤ body.draft.function.parameters.length) :
    Builds assembly owner (fun value => value) body (bindParameters owner ⟨owner, ⟨0⟩⟩ index names)
      (Lowering.bindParameters (names.zip (body.draft.function.parameters.drop index)))
      fun _ _ => True := by
  induction names generalizing index body with
  | nil => exact .pure trivial
  | cons name rest ih =>
    rw [List.length_cons] at hLength
    have hIndex : index < body.draft.function.parameters.length := by omega
    rw [List.drop_eq_getElem_cons hIndex, List.zip_cons_cons, bindParameters,
      Lowering.bindParameters]
    refine (alloca_builds _).bind fun body₁ slot hMore₁ hSlot => ?_
    have hRegister : body₁.draft.function.parameters[index]? =
        some body.draft.function.parameters[index] := by
      rw [hMore₁.parameters, List.getElem?_eq_getElem hIndex]
    refine .asking (fun _ _ => parameter_eq hRegister) ?_
    refine (store_builds ⟨owner, slot⟩ _).bind fun body₂ _ hMore₂ _ => ?_
    refine (insert_builds (hMore₂.slots _ _ hSlot)).bind fun body₃ _ hMore₃ _ => ?_
    have hParameters : body₃.draft.function.parameters = body.draft.function.parameters :=
      ((hMore₁.trans hMore₂).trans hMore₃).parameters
    rw [← hParameters]
    refine ih (index + 1) body₃ ?_
    rw [hParameters]
    omega

theorem definitionBody_builds {functions : NameTable FunctionId} {callees : Lowering.Callees}
    (hResolves : Resolves assembly functions callees) (names : List Name) (e : Expr)
    (hLength : names.length ≤ body.draft.function.parameters.length) :
    Builds assembly owner (fun value => value) body
      (definitionBody functions owner ⟨owner, ⟨0⟩⟩ names e)
      (Lowering.definitionBody callees (names.zip body.draft.function.parameters) e)
      fun _ _ => True := by
  refine Builds.bind (bindParameters_builds names 0 body ?_) fun body₁ _ _ _ => ?_
  · omega
  refine (expression_builds hResolves e body₁).bind fun body₂ value _ hValue => ?_
  cases value with
  | none => exact .pure trivial
  | some value =>
    refine (toWord_builds (hValue value rfl)).bind fun body₃ result _ _ => ?_
    refine (ret_builds (some result)).bind fun _ _ _ _ => ?_
    exact .pure trivial

end Definition

theorem prototype_keeps {state declared : Lowering} {head : Prototype} {id : FunctionId}
    {events : List Event} (hOk : state.prototype head = .ok (id, declared, events)) :
    declared.entry = state.entry ∧ declared.insertion = state.insertion ∧
      declared.scope = state.scope := by
  simp only [Lowering.prototype] at hOk
  split at hOk
  · cases hOk
  · split at hOk
    · cases hOk
    · split at hOk
      · split at hOk
        · cases hOk
        · split at hOk
          · cases hOk
          · cases hOk
            exact ⟨rfl, rfl, rfl⟩
      · cases hOk
        exact ⟨rfl, rfl, rfl⟩

section Items

variable {width : Nat} {state : Lowering} {stage : Stage}

theorem callees_resolve (h : state.Valid width) :
    Resolves state.assembly state.functions state.callees := by
  intro name
  cases hFind : state.functions.find? name with
  | none =>
    change state.callees name = none
    rw [Lowering.callees, hFind]
    rfl
  | some id =>
    obtain ⟨_, f, hGet, _⟩ := h.table name id hFind
    refine ⟨f.signature, ?_, ?_⟩
    · rw [Assembly.signature?_eq, hGet]
      rfl
    · rw [Lowering.callees, hFind]
      change (state.assembly.get? id).bind _ = _
      rw [hGet]
      rfl

/-- A declared function with its first block, and the cursor in it. -/
theorem openBody_eq {builder : Builder} {id : FunctionId} {name : String} {arity : Nat}
    (hGet : builder.assembly.get? id = some (.bare name (.ofArity arity) .external)) :
    openBody id builder =
      some (⟨id, ⟨0⟩⟩, showing builder.assembly id (Lowering.opened name arity).draft) := by
  have hCreate : Builder.createBlock id "entry" builder = some (⟨id, ⟨0⟩⟩,
      { builder with assembly := builder.assembly.put id (Lowering.opened name arity).draft.function }) := by
    rw [Builder.createBlock, run_bind (function_eq hGet)]
    rfl
  rw [openBody, run_bind hCreate]
  rfl

theorem opened_shows {assembly : Assembly} {id : FunctionId} {name : String} {arity : Nat}
    (hGet : assembly.get? id = some (.bare name (.ofArity arity) .external)) :
    Shows assembly id (Lowering.opened name arity)
      { builder := showing assembly id (Lowering.opened name arity).draft } where
  builder := rfl
  scope _ := rfl
  diagnostics := rfl
  signature := by
    rw [Assembly.signature?_eq, hGet]
    rfl
  block := Nat.one_pos
  slots _ _ hSlot := by cases hSlot

theorem length_parameters_opened (head : Prototype) :
    (Lowering.opened head.name.text head.parameters.length).draft.function.parameters.length =
      head.parameters.length := by
  change ((List.range (List.replicate head.parameters.length Ty.i32).length).map Id.mk).length = _
  rw [List.length_map, List.length_range, List.length_replicate]

theorem length_registers_opened (head : Prototype) :
    (Lowering.opened head.name.text head.parameters.length).draft.function.parameters.length =
      (Lowering.opened head.name.text head.parameters.length).draft.function.registers.size := by
  rw [length_parameters_opened]
  exact (List.length_replicate ..).symm

/-- A stage that goes on with another builder. -/
theorem Reaches.update (hReaches : Reaches state stage) {declared : Lowering}
    (hKeeps : declared.entry = state.entry ∧ declared.insertion = state.insertion ∧
      declared.scope = state.scope) {builder : Builder} {assembly : Assembly}
    (functions : NameTable FunctionId) (hAssembly : builder.assembly = assembly) :
    Reaches ⟨assembly, functions, declared.entry, declared.insertion, declared.scope⟩
      { stage with builder, functions } := by
  obtain ⟨hEntry, hInsertion, hScope⟩ := hKeeps
  rw [hEntry, hInsertion, hScope]
  exact ⟨hAssembly, rfl, hReaches.entry, hReaches.first, hReaches.insertion, hReaches.scope⟩

theorem discard_showing (assembly : Assembly) (id : FunctionId) {draft : Draft} {f : Function}
    (hWithout : draft.function.withoutBody = f.withoutBody) :
    ∃ cursor, Builder.discard id (showing assembly id draft) =
      some ((), ⟨assembly.discard id f, cursor⟩) := by
  refine ⟨(some (⟨id, draft.block⟩ : BlockRef)).filter fun place => place.function != id, ?_⟩
  have hDiscard : (showing assembly id draft).assembly.discard id draft.function =
      assembly.discard id f := by
    rw [Assembly.discard, Assembly.discard, showing, Assembly.put_put, hWithout]
  rw [Builder.discard, run_bind (function_eq (get?_showing _ _ _)), ← hDiscard]
  rfl

theorem definition_reaches (h : state.Valid width) (hReaches : Reaches state stage)
    (head : Prototype) (e : Expr) :
    ∃ stage', definition stage head e = some (stage', (state.definition head e).2) ∧
      Reaches (state.definition head e).1 stage' := by
  have hPrototype := prototype_eq h hReaches.assembly head
  cases hOk : state.prototype head with
  | error problem =>
    rw [hOk] at hPrototype
    refine ⟨stage, ?_, ?_⟩
    · rw [definition, hReaches.functions, hPrototype, Lowering.definition, hOk]
      rw [← hReaches.functions]
      rfl
    · rw [Lowering.definition, hOk]
      exact hReaches
  | ok result =>
    obtain ⟨id, declared, events⟩ := result
    obtain ⟨hDeclared, hReserved, hGet⟩ := h.prototype hOk
    rw [hOk] at hPrototype
    have hOpen : openBody id ⟨declared.assembly, stage.builder.cursor⟩ = _ := openBody_eq hGet
    obtain ⟨site, hRun, hShows, hMore, -⟩ :=
      definitionBody_builds (callees_resolve hDeclared) head.parameters e
        (length_parameters_opened head).ge _ (opened_shows hGet)
    rw [definition, hReaches.functions, hPrototype]
    simp only [Option.bind_eq_bind, Option.bind_some, hOpen, hRun]
    cases hFinal : Lowering.definitionBody declared.callees (head.parameters.zip
      (Function.bare head.name.text (.ofArity head.parameters.length) .external).parameters) e
      (Lowering.opened head.name.text head.parameters.length) with
    | mk value final =>
    change Lowering.definitionBody declared.callees (head.parameters.zip
      (Lowering.opened head.name.text head.parameters.length).draft.function.parameters) e _ = _
      at hFinal
    rw [hFinal] at hShows hMore ⊢
    cases value with
    | some value =>
      rw [Lowering.definition_of_some hOk hGet hFinal]
      refine ⟨{ stage with builder := site.builder, functions := declared.functions }, ?_, ?_⟩
      · rw [hShows.diagnostics]
        rfl
      · refine hReaches.update (prototype_keeps hOk) _ ?_
        rw [hShows.builder]
        rfl
    | none =>
      rw [Lowering.definition_of_none hOk hGet hFinal]
      have hWithout : final.draft.function.withoutBody =
          (Function.bare head.name.text (.ofArity head.parameters.length) .external).withoutBody :=
        hMore.withoutBody_eq (length_registers_opened head)
      obtain ⟨cursor, hDiscard⟩ := discard_showing declared.assembly id hWithout
      rw [← hShows.builder] at hDiscard
      let discarded : Builder := ⟨declared.assembly.discard id
        (.bare head.name.text (.ofArity head.parameters.length) .external), cursor⟩
      refine ⟨{ stage with
        builder := discarded, functions := declared.functions.erase head.name.text }, ?_, ?_⟩
      · rw [hShows.diagnostics]
        simp only [hDiscard]
        rfl
      · exact hReaches.update (prototype_keeps hOk) _ rfl

theorem topLevel_reaches (h : state.Valid width) (hReaches : Reaches state stage) (e : Expr) :
    ∃ stage', topLevel stage e = some (stage', (state.topLevel e).2) ∧
      Reaches (state.topLevel e).1 stage' := by
  obtain ⟨f, plan, hGet, _, _, _, hReady, _⟩ := h.entry
  have hShows : Shows state.assembly state.entry ⟨⟨f, state.insertion⟩, state.scope, []⟩
      ⟨⟨state.assembly, some ⟨state.entry, state.insertion⟩⟩, stage.scope, []⟩ := by
    refine ⟨?_, hReaches.scope, rfl, ?_, hReady.draft.block_lt, hReady.scope⟩
    · rw [showing, Assembly.put_self h.sorted hGet]
    · rw [Assembly.signature?_eq, hGet]
      rfl
  obtain ⟨site, hRun, hShows', _, _⟩ := expression_builds (callees_resolve h) e _ _ hShows
  have hSet : Builder.setInsertionPoint ⟨state.entry, state.insertion⟩ stage.builder =
      some ((), ⟨state.assembly, some ⟨state.entry, state.insertion⟩⟩) := by
    rw [← hReaches.assembly]
    rfl
  rw [topLevel, hReaches.functions, hReaches.entry, hReaches.first, hReaches.insertion,
    Lowering.topLevel, hGet]
  cases hFinal : Lowering.expression state.callees e ⟨⟨f, state.insertion⟩, state.scope, []⟩ with
  | mk value final =>
  rw [hFinal] at hRun hShows'
  have hCursor : site.builder.cursor = some ⟨state.entry, final.draft.block⟩ :=
    congrArg Builder.cursor hShows'.builder
  simp only [hFinal, Option.bind_eq_bind, hSet, Option.bind_some, hRun, insertionBlock_eq hCursor]
  refine ⟨⟨site.builder, state.functions, state.entry, ⟨state.entry, ⟨0⟩⟩,
    ⟨state.entry, final.draft.block⟩, site.scope⟩, ?_, ?_⟩
  · rw [hShows'.diagnostics]
    rfl
  · exact ⟨congrArg Builder.assembly hShows'.builder, rfl, rfl, rfl, rfl, hShows'.scope⟩

theorem item_reaches (h : state.Valid width) (hReaches : Reaches state stage) (i : Item) :
    ∃ stage', item stage i = some (stage', (state.item i).2) ∧ Reaches (state.item i).1 stage' := by
  cases i with
  | declaration span head =>
    rw [item, Lowering.item, hReaches.functions, prototype_eq h hReaches.assembly]
    cases hOk : state.prototype head with
    | error problem => exact ⟨stage, by rw [← hReaches.functions]; rfl, hReaches⟩
    | ok result =>
      obtain ⟨id, declared, events⟩ := result
      exact ⟨_, rfl, hReaches.update (prototype_keeps hOk) _ rfl⟩
  | definition span head e => exact definition_reaches h hReaches head e
  | expression e => exact topLevel_reaches h hReaches e

/-- The run lemma: no item of a program fails. -/
theorem items_reaches (program : List Item) (hWidth : ∀ item ∈ program, item.widest ≤ width)
    (h : state.Valid width) (hReaches : Reaches state stage) :
    ∃ stage', items stage program = some (stage', (state.items program).2) ∧
      Reaches (state.items program).1 stage' := by
  induction program generalizing state stage with
  | nil => exact ⟨stage, rfl, hReaches⟩
  | cons first rest ih =>
    obtain ⟨next, hItem, hNext⟩ := item_reaches h hReaches first
    obtain ⟨final, hItems, hFinal⟩ := ih (fun item hMem => hWidth item (List.mem_cons_of_mem _ hMem))
      (h.item (hWidth first List.mem_cons_self)) hNext
    refine ⟨final, ?_, hFinal⟩
    rw [items, hItem]
    simp only [Option.bind_eq_bind, Option.bind_some, hItems]
    rfl

theorem finish_eq (h : state.Valid width) (hReaches : Reaches state stage) :
    finish stage = some state.finish := by
  obtain ⟨f, plan, hGet, _, _, _, hReady, _⟩ := h.entry
  let opened : Builder := ⟨state.assembly, some ⟨state.entry, state.insertion⟩⟩
  have hSet : Builder.setInsertionPoint ⟨state.entry, state.insertion⟩ stage.builder =
      some ((), opened) := by
    rw [Builder.setInsertionPoint]
    change some ((), (⟨stage.builder.assembly, _⟩ : Builder)) = _
    rw [hReaches.assembly]
  have hCursor : opened.cursor = some ⟨state.entry, state.insertion⟩ := rfl
  rw [finish, Lowering.finish, hGet, hReaches.insertion, hSet]
  simp only [Option.bind_eq_bind, Option.bind_some, Builder.ret,
    atCursor_eq hCursor hGet hReady.draft.block_lt]
  rfl

end Items

/-- Lowering through a builder succeeds on every program, with the module of `lowerProgram`. -/
theorem lower_eq (module : String) (program : List Item) :
    lower module program = some (lowerProgram module program) := by
  obtain ⟨stage, hStart, hReaches⟩ := start_reaches module
  have hValid := Lowering.start_valid (widestItem program) module
  have hWidth : ∀ item ∈ program, item.widest ≤ widestItem program :=
    fun _ hItem => widest_le_widestItem hItem
  obtain ⟨final, hItems, hFinal⟩ := items_reaches program hWidth hValid hReaches
  rw [lower, hStart]
  simp only [Option.bind_eq_bind, Option.bind_some, hItems,
    finish_eq (hValid.items program hWidth) hFinal]
  rfl

end Building
end Slate
