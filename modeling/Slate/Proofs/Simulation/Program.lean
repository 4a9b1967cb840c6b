import Slate.Proofs.Machine.Outcome
import Slate.Proofs.Simulation.Call

/-! # Lowered programs do what evaluation says

While a program is lowered without a diagnostic, no function is lost: the module keeps every definition it has
seen, under the name that calls use, and the entry function holds the top-level expressions so far. So the
finished module runs as the program is evaluated.
-/

namespace Slate
set_option autoImplicit false

open Lowering Evaluation Machine Activation
open Body (Moves Stays)

theorem Evaluation.definition?_append (program rest : List Item) (name : String) :
    definition? (program ++ rest) name = (definition? program name).or (definition? rest name) :=
  List.findSome?_append

section Resolving

/-- Functions stay where they are, and all but the entry function stay as they are once they have a body. -/
def Module.Retains (module module' : Module) : Prop :=
  ∀ id f, module.get? id = some f → ∃ f', module'.get? id = some f' ∧ f'.name = f.name ∧
    f'.signature = f.signature ∧ (f.isDeclaration = false → id ≠ ⟨1⟩ → f' = f)

theorem Module.Resolves.retains {module module' : Module} {name : String} {callee : Callee}
    (h : module.Resolves name callee) (hRetains : module.Retains module') :
    module'.Resolves name callee := by
  cases h with
  | host => exact .host
  | @written id f hFound hName =>
    obtain ⟨f', hFound', hSame, hSignature, -⟩ := hRetains id f hFound
    rw [← hSame] at hName ⊢
    rw [← hSignature]
    exact .written hFound' hName

theorem Function.Defines.mono {resolves resolves' : String → Callee → Prop} {parameters : List Name}
    {e : Expr} {f : Function} (h : f.Defines resolves parameters e)
    (hMono : ∀ name callee, resolves name callee → resolves' name callee) :
    f.Defines resolves' parameters e := by
  obtain ⟨hNodup, callees, value, final, hCallees, hLowered⟩ := h
  exact ⟨hNodup, callees, value, final, fun name callee hCallee => hMono _ _ (hCallees _ _ hCallee), hLowered⟩

end Resolving

namespace Lowering

/-- Expressions lowered one after the other without a diagnostic. -/
inductive Lowers (resolves : String → Callee → Prop) : Body → List Expr → Body → Prop
  | nil (body : Body) : Lowers resolves body [] body
  | cons {callees : Callees} {body final : Body} {e : Expr} {es : List Expr}
      (callees_resolve : ∀ name callee, callees name = some callee → resolves name callee)
      (clean : (expression callees e body).2.diagnostics = [])
      (rest : Lowers resolves (expression callees e body).2 es final) : Lowers resolves body (e :: es) final

namespace Lowers

variable {resolves resolves' : String → Callee → Prop} {body middle final : Body} {es : List Expr}

theorem mono (h : Lowers resolves body es final)
    (hMono : ∀ name callee, resolves name callee → resolves' name callee) :
    Lowers resolves' body es final := by
  induction h with
  | nil body => exact .nil body
  | cons hCallees hClean _ ih => exact .cons (fun _ _ hCallee => hMono _ _ (hCallees _ _ hCallee)) hClean ih

theorem snoc (h : Lowers resolves body es middle) {callees : Callees} {e : Expr}
    (hCallees : ∀ name callee, callees name = some callee → resolves name callee)
    (hClean : (expression callees e middle).2.diagnostics = []) :
    Lowers resolves body (es ++ [e]) (expression callees e middle).2 := by
  induction h with
  | nil body => exact .cons hCallees hClean (.nil _)
  | cons hFirst hFirstClean _ ih => exact .cons hFirst hFirstClean (ih hClean)

theorem simulates {a : Activation} {width : Nat} (hModule : a.module.Lowered width) (ha : a.Fit)
    {invoke : String → List Word → Eval (Option Word)}
    (hAnswers : ∀ name callee, a.module.Resolves name callee → a.Answers invoke name callee)
    {rounds : Nat} (hFuel : a.fuel ≤ rounds) (h : Lowers a.module.Resolves body es final)
    (hWidth : ∀ e ∈ es, e.widest ≤ width) {plan : Plan} {pre : Frame → Prop} {word : Option Word}
    (hReady : body.Ready ⟨a.module.signature?, width⟩ plan) :
    Simulates a ⟨a.module.signature?, width⟩ plan body pre (fun _ => ((), final))
      (Evaluation.sequence invoke rounds word es) (fun _ _ _ => True) (fun _ _ _ _ => True) := by
  induction h generalizing plan pre word with
  | nil body =>
    rw [Evaluation.sequence]
    exact .congr (.pure hReady trivial fun _ _ => trivial) rfl
  | @cons callees body final e es hCallees hClean _ ih =>
    rw [Evaluation.sequence]
    have hFirst := expression_simulates ha (hModule.serves hCallees hAnswers) hFuel e
      (hWidth e List.mem_cons_self) plan body pre hReady
    have hBoth : Simulates a ⟨a.module.signature?, width⟩ plan body pre
        (expression callees e >>= fun _ => (fun _ => ((), final) : Lower Unit))
        (eval invoke rounds e >>= fun result => Evaluation.sequence invoke rounds result es)
        (fun _ _ _ => True) (fun _ _ _ _ => True) := by
      refine .bind hReady hFirst.exactly ?_
      rintro plan₁ body₁ value result hMoves ⟨hAt, -⟩
      obtain rfl : body₁ = (expression callees e body).2 := congrArg Prod.snd hAt
      exact ih (fun other hOther => hWidth other (List.mem_cons_of_mem _ hOther)) hMoves.ready
    exact .congr hBoth rfl

end Lowers

/-- The definitions and the top-level expressions so far are in the module. -/
structure Tracks (width : Nat) (done : List Item) (state : Lowering) : Prop where
  valid : state.Valid width
  table : ∀ name id, state.functions.find? name = some id →
    name = "puts" ∧ id = ⟨0⟩ ∨ isReserved name = false
  defined : ∀ name parameters e, definition? done name = some (parameters, e) →
    e.widest ≤ width ∧ isReserved name = false ∧ ∃ id f, state.assembly.get? id = some f ∧ f.name = name ∧
      f.isDeclaration = false ∧ f.Defines state.assembly.module.Resolves parameters e
  declared : ∀ id f, state.assembly.get? id = some f → isReserved f.name = false →
    definition? done f.name = none → f.isDeclaration = true
  entry : ∃ f, state.assembly.get? ⟨1⟩ = some f ∧
    Lowers state.assembly.module.Resolves ⟨⟨emptyEntry, ⟨0⟩⟩, .empty, []⟩ (Evaluation.topLevel done)
      ⟨⟨f, state.insertion⟩, state.scope, []⟩

theorem nodup_of_duplicate? {seen : List String} {parameters : List Name}
    (h : duplicate? seen parameters = none) : (parameters.map Name.text).Nodup ∧
      ∀ parameter ∈ parameters, parameter.text ∉ seen := by
  induction parameters generalizing seen with
  | nil => exact ⟨.nil, fun _ hMem => by cases hMem⟩
  | cons first rest ih =>
    rw [duplicate?] at h
    split at h
    · cases h
    · rename_i hFirst
      obtain ⟨hNodup, hRest⟩ := ih h
      refine ⟨List.nodup_cons.mpr ⟨fun hMem => ?_, hNodup⟩, ?_⟩
      · obtain ⟨other, hOther, hEq⟩ := List.mem_map.mp hMem
        exact hRest other hOther (hEq ▸ List.mem_cons_self)
      · intro parameter hMem
        rcases List.mem_cons.mp hMem with rfl | hMem
        · simpa using hFirst
        · exact fun hSeen => hRest parameter hMem (List.mem_cons_of_mem _ hSeen)

/-- What an accepted prototype does: it binds its name to a bare function, which may be new. -/
theorem prototype_eq_ok {state declared : Lowering} {head : Prototype} {id : FunctionId}
    {events : List Event} (hOk : state.prototype head = .ok (id, declared, events)) :
    (head.parameters.map Name.text).Nodup ∧ ∃ assembly,
      declared = { state with assembly, functions := state.functions.insert head.name.text id } ∧
      (assembly = state.assembly ∨ id = state.assembly.next ∧
        assembly = state.assembly.declare head.name.text (.ofArity head.parameters.length) .external) := by
  rw [Lowering.prototype] at hOk
  dsimp only at hOk
  split at hOk
  · cases hOk
  · split at hOk
    · cases hOk
    · rename_i hDuplicate
      refine ⟨(nodup_of_duplicate? hDuplicate).1, ?_⟩
      split at hOk
      · split at hOk
        · cases hOk
        · split at hOk
          · cases hOk
          · cases hOk
            exact ⟨_, rfl, .inl rfl⟩
      · cases hOk
        exact ⟨_, rfl, .inr ⟨rfl, rfl⟩⟩

theorem filterMap_diagnostics_eq_nil {diagnostics : List Diagnostic}
    (h : (diagnostics.map Event.diagnostic).filterMap Event.diagnostic? = []) : diagnostics = [] := by
  rw [List.filterMap_map] at h
  exact (List.filterMap_some).symm.trans h

theorem retains_put {assembly : Assembly} {id : FunctionId} {f f' : Function}
    (hFound : assembly.get? id = some f) (hName : f'.name = f.name) (hSignature : f'.signature = f.signature)
    (hFree : f.isDeclaration = true ∨ id = ⟨1⟩) : assembly.module.Retains (assembly.put id f').module := by
  intro key g hKey
  have hGet := assembly.get?_put id key f'
  by_cases hEq : key = id
  · subst hEq
    cases hFound.symm.trans hKey
    rw [if_pos rfl] at hGet
    refine ⟨f', hGet, hName, hSignature, fun hBody hEntry => ?_⟩
    rcases hFree with hFree | hFree
    · rw [hFree] at hBody
      cases hBody
    · exact absurd hFree hEntry
  · rw [if_neg hEq] at hGet
    exact ⟨g, hGet.trans hKey, rfl, rfl, fun _ _ => rfl⟩

theorem topLevel_of_get? {state : Lowering} {f : Function} (h : state.assembly.get? state.entry = some f)
    {e : Expr} {value : Option Operand} {final : Body}
    (hFinal : expression state.callees e ⟨⟨f, state.insertion⟩, state.scope, []⟩ = (value, final)) :
    state.topLevel e =
      (⟨state.assembly.put state.entry final.draft.function, state.functions, state.entry,
        final.draft.block, final.scope⟩, final.diagnostics.map .diagnostic ++ [.produced value]) := by
  rw [topLevel, h]
  dsimp only
  rw [hFinal]

namespace Tracks

variable {width : Nat} {done : List Item} {state : Lowering} (h : state.Tracks width done)
include h

theorem callees_resolve {name : String} {callee : Callee} (hCallee : state.callees name = some callee) :
    state.assembly.module.Resolves name callee := by
  obtain ⟨id, hId, hCallee⟩ := Option.bind_eq_some_iff.mp hCallee
  obtain ⟨f, hFound, hCallee⟩ := Option.bind_eq_some_iff.mp hCallee
  cases hCallee
  obtain ⟨-, g, hFound', hName⟩ := h.valid.table name id hId
  cases hFound.symm.trans hFound'
  rcases h.table name id hId with ⟨rfl, rfl⟩ | hFree
  · cases h.valid.host.symm.trans hFound
    exact .host
  · rcases hName with rfl | ⟨hReserved, -⟩
    · exact .written hFound hFree
    · rw [hFree] at hReserved
      cases hReserved

/-- Definitions are not lost. -/
theorem defined_of_retains {assembly : Assembly}
    (hRetains : state.assembly.module.Retains assembly.module) {name : String} {parameters : List Name}
    {e : Expr} (hDefinition : definition? done name = some (parameters, e)) :
    e.widest ≤ width ∧ isReserved name = false ∧ ∃ id f, assembly.get? id = some f ∧ f.name = name ∧
      f.isDeclaration = false ∧ f.Defines assembly.module.Resolves parameters e := by
  obtain ⟨hWidth, hFree, id, f, hFound, hName, hBody, hDefines⟩ := h.defined _ _ _ hDefinition
  obtain ⟨f', hFound', -, -, hSame⟩ := hRetains id f hFound
  have hEntry : id ≠ ⟨1⟩ := h.valid.entry_eq ▸ (h.valid.written_of_name hFound (hName ▸ hFree)).2.1
  rw [hSame hBody hEntry] at hFound'
  exact ⟨hWidth, hFree, id, f, hFound', hName, hBody,
    hDefines.mono fun _ _ hCallee => hCallee.retains hRetains⟩

/-- Only definitions and top-level expressions matter. -/
theorem congr {done' : List Item} (hDefinitions : ∀ name, definition? done' name = definition? done name)
    (hTopLevel : Evaluation.topLevel done' = Evaluation.topLevel done) : state.Tracks width done' where
  valid := h.valid
  table := h.table
  defined name parameters e hDefinition := h.defined name parameters e (hDefinitions name ▸ hDefinition)
  declared id f hFound hName hNone := h.declared id f hFound hName (hDefinitions f.name ▸ hNone)
  entry := hTopLevel ▸ h.entry

theorem prototype {head : Prototype} {id : FunctionId} {declared : Lowering} {events : List Event}
    (hOk : state.prototype head = .ok (id, declared, events)) : declared.Tracks width done := by
  obtain ⟨hValid, hFree, -⟩ := h.valid.prototype hOk
  obtain ⟨-, assembly, rfl, hAssembly⟩ := prototype_eq_ok hOk
  obtain ⟨entry, hEntry, hLowers⟩ := h.entry
  have hGet : ∀ key, assembly.get? key = state.assembly.get? key ∨ key ≠ ⟨1⟩ ∧
      state.assembly.get? key = none ∧
      assembly.get? key = some (.bare head.name.text (.ofArity head.parameters.length) .external) := by
    intro key
    rcases hAssembly with rfl | ⟨rfl, rfl⟩
    · exact .inl rfl
    · rw [Assembly.get?_declare]
      by_cases hKey : key = state.assembly.next
      · rw [if_pos hKey, hKey]
        refine .inr ⟨fun hOne => ?_, h.valid.next_none, rfl⟩
        cases (hOne ▸ h.valid.next_none).symm.trans hEntry
      · exact .inl (if_neg hKey)
  have hRetains : state.assembly.module.Retains assembly.module := by
    intro key f hKey
    rcases hGet key with hSame | ⟨-, hNone, -⟩
    · exact ⟨f, hSame.trans hKey, rfl, rfl, fun _ _ => rfl⟩
    · cases hNone.symm.trans hKey
  refine ⟨hValid, ?_, fun name parameters e => h.defined_of_retains hRetains, ?_, ?_⟩
  · intro name key hKey
    rw [NameTable.find?_insert] at hKey
    split at hKey
    · rename_i hEq
      exact .inr (hEq ▸ hFree)
    · exact h.table name key hKey
  · intro key f hKey hName hNone
    rcases hGet key with hSame | ⟨-, -, hNew⟩
    · exact h.declared key f (hSame.symm.trans hKey) hName hNone
    · cases hNew.symm.trans hKey
      exact Function.isDeclaration_bare _ _ _
  · rcases hGet ⟨1⟩ with hSame | ⟨hNe, -⟩
    · exact ⟨entry, hSame.trans hEntry, hLowers.mono fun _ _ hCallee => hCallee.retains hRetains⟩
    · exact absurd rfl hNe

/-- A bare function gets the body of its definition. -/
theorem define (span : Span) {head : Prototype} {e : Expr} (hWidth : e.widest ≤ width) {id : FunctionId}
    (hGet : state.assembly.get? id =
      some (.bare head.name.text (.ofArity head.parameters.length) .external))
    (hFree : isReserved head.name.text = false) (hNodup : (head.parameters.map Name.text).Nodup)
    {value : Operand} {final : Body}
    (hFinal : definitionBody state.callees
      (head.parameters.zip
        (Function.bare head.name.text (.ofArity head.parameters.length) .external).parameters) e
      (opened head.name.text head.parameters.length) = (some value, final))
    (hClean : final.diagnostics = [])
    (hValid : ({ state with assembly := state.assembly.put id final.draft.function } : Lowering).Valid width) :
    ({ state with assembly := state.assembly.put id final.draft.function } : Lowering).Tracks width
      (done ++ [.definition span head e]) := by
  obtain ⟨hGrows, plan, hStaged, -⟩ := definitionBody_opened (state.callees_agree width) head.name.text
    head.parameters.length head.parameters hWidth hFinal
  have hName : final.draft.function.name = head.name.text := hGrows.name
  have hRetains : state.assembly.module.Retains (state.assembly.put id final.draft.function).module :=
    retains_put hGet hName hGrows.signature (.inl (Function.isDeclaration_bare _ _ _))
  have hEntry : (⟨1⟩ : FunctionId) ≠ id := by
    rintro rfl
    exact (h.valid.written_of_name hGet hFree).2.1 h.valid.entry_eq.symm
  have hSearch : ∀ name, definition? (done ++ [.definition span head e]) name =
      (definition? done name).or
        (if head.name.text = name then some (head.parameters, e) else none) := by
    intro name
    rw [definition?_append]
    congr 1
    rw [definition?, List.findSome?_cons]
    split <;> simp_all
  refine ⟨hValid, h.table, ?_, ?_, ?_⟩
  · intro name parameters e' hDefinition
    rw [hSearch] at hDefinition
    cases hOld : definition? done name with
    | some old =>
      rw [hOld, Option.some_or] at hDefinition
      cases hDefinition
      exact h.defined_of_retains hRetains hOld
    | none =>
      rw [hOld, Option.none_or] at hDefinition
      split at hDefinition
      · rename_i hEq
        cases hDefinition
        subst hEq
        refine ⟨hWidth, hFree, id, final.draft.function, ?_, hName, ?_, hNodup, state.callees, value, final,
          fun _ _ hCallee => (h.callees_resolve hCallee).retains hRetains, ?_, hClean, rfl⟩
        · exact (Assembly.get?_put _ _ _ _).trans (if_pos rfl)
        · exact (Function.isDeclaration_eq_false_iff _).mpr
            (Nat.lt_of_lt_of_le (Nat.lt_succ_self 0) hGrows.blocks)
        · rw [hName]
          exact hFinal
      · cases hDefinition
  · intro key f hKey hReserved hNone
    rw [hSearch, Option.or_eq_none_iff] at hNone
    rw [Assembly.get?_put] at hKey
    split at hKey
    · cases hKey
      rw [if_pos hName.symm] at hNone
      cases hNone.2
    · exact h.declared key f hKey hReserved hNone.1
  · obtain ⟨entry, hFound, hLowers⟩ := h.entry
    refine ⟨entry, (Assembly.get?_put _ _ _ _).trans ((if_neg hEntry).trans hFound), ?_⟩
    have hTop : Evaluation.topLevel (done ++ [.definition span head e]) = Evaluation.topLevel done := by
      rw [Evaluation.topLevel, List.filterMap_append]
      exact List.append_nil _
    rw [hTop]
    exact hLowers.mono fun _ _ hCallee => hCallee.retains hRetains

theorem definition (span : Span) (head : Prototype) {e : Expr} (hWidth : e.widest ≤ width)
    (hClean : (state.definition head e).2.filterMap Event.diagnostic? = []) :
    (state.definition head e).1.Tracks width (done ++ [.definition span head e]) := by
  have hValid := h.valid.definition head hWidth
  rcases h.valid.definition_cases head e with
    ⟨problem, -, hEq⟩ | ⟨id, declared, events, hOk, ⟨final, -, hEq⟩ | ⟨value, final, hFinal, hEq⟩⟩
  · rw [hEq] at hClean
    cases hClean
  · rw [hEq, List.filterMap_append] at hClean
    exact absurd (List.append_eq_nil_iff.mp hClean).2 (List.cons_ne_nil _ _)
  · obtain ⟨-, hFree, hGet⟩ := h.valid.prototype hOk
    have hDeclared := h.prototype hOk
    rw [hEq] at hClean hValid ⊢
    refine hDeclared.define span hWidth hGet hFree (prototype_eq_ok hOk).1 hFinal ?_ hValid
    rw [List.filterMap_append, List.filterMap_append, List.append_eq_nil_iff,
      List.append_eq_nil_iff] at hClean
    exact filterMap_diagnostics_eq_nil hClean.1.2

theorem topLevel {e : Expr} (hWidth : e.widest ≤ width)
    (hClean : (state.topLevel e).2.filterMap Event.diagnostic? = []) :
    (state.topLevel e).1.Tracks width (done ++ [.expression e]) := by
  obtain ⟨f, hFound, hLowers⟩ := h.entry
  obtain ⟨f', plan, hGet, hName, -, -, hReady, -⟩ := h.valid.entry
  rw [h.valid.entry_eq] at hGet
  cases hFound.symm.trans hGet
  have hValid := h.valid.topLevel hWidth
  obtain ⟨plan', hMoves, -⟩ := expression_leads (callees_agree width state) e hWidth plan _ hReady
  have hGrows := hMoves.flow.extends_.grows
  have hSnoc := hLowers.snoc (e := e) fun _ _ hCallee => h.callees_resolve hCallee
  cases hFinal : expression state.callees e ⟨⟨f, state.insertion⟩, state.scope, []⟩ with
  | mk value final =>
  rw [topLevel_of_get? (h.valid.entry_eq ▸ hFound) hFinal, h.valid.entry_eq] at hValid ⊢
  rw [topLevel_of_get? (h.valid.entry_eq ▸ hFound) hFinal, List.filterMap_append,
    List.append_eq_nil_iff] at hClean
  rw [hFinal] at hGrows hSnoc
  have hNothing := filterMap_diagnostics_eq_nil hClean.1
  have hLowers' := hSnoc hNothing
  have hRetains : state.assembly.module.Retains (state.assembly.put ⟨1⟩ final.draft.function).module :=
    retains_put hFound hGrows.name hGrows.signature (.inr rfl)
  have hSearch : ∀ name, definition? (done ++ [.expression e]) name = definition? done name := by
    intro name
    rw [definition?_append]
    exact Option.or_none
  refine ⟨hValid, h.table, ?_, ?_, ?_⟩
  · intro name parameters e' hDefinition
    rw [hSearch] at hDefinition
    exact h.defined_of_retains hRetains hDefinition
  · intro key g hKey hReserved hNone
    rw [hSearch] at hNone
    rw [Assembly.get?_put] at hKey
    split at hKey
    · cases hKey
      rw [hGrows.name, hName] at hReserved
      cases hReserved
    · exact h.declared key g hKey hReserved hNone
  · refine ⟨final.draft.function, (Assembly.get?_put _ _ _ _).trans (if_pos rfl), ?_⟩
    have hTop : Evaluation.topLevel (done ++ [.expression e]) = Evaluation.topLevel done ++ [e] := by
      rw [Evaluation.topLevel, List.filterMap_append]
      rfl
    obtain ⟨⟨g, block⟩, scope, diagnostics⟩ := final
    cases hNothing
    rw [hTop]
    exact hLowers'.mono fun _ _ hCallee => hCallee.retains hRetains

theorem item {item : Item} (hWidth : item.widest ≤ width)
    (hClean : (state.item item).2.filterMap Event.diagnostic? = []) :
    (state.item item).1.Tracks width (done ++ [item]) := by
  cases item with
  | declaration span head =>
    cases hOk : state.prototype head with
    | error problem =>
      rw [Lowering.item, hOk] at hClean
      cases hClean
    | ok result =>
      obtain ⟨id, declared, events⟩ := result
      rw [Lowering.item, hOk]
      refine (h.prototype hOk).congr (fun name => ?_) ?_
      · rw [definition?_append]
        exact Option.or_none
      · rw [Evaluation.topLevel, List.filterMap_append]
        exact List.append_nil _
  | definition span head e => exact h.definition span head hWidth hClean
  | expression e => exact h.topLevel hWidth hClean

omit h in
/-- The run lemma: after a whole program without a diagnostic all of it is in the module. -/
theorem items (program : List Item) {done : List Item} {state : Lowering} (h : state.Tracks width done)
    (hWidth : ∀ item ∈ program, item.widest ≤ width)
    (hClean : (state.items program).2.filterMap Event.diagnostic? = []) :
    (state.items program).1.Tracks width (done ++ program) := by
  induction program generalizing done state with
  | nil => rwa [List.append_nil]
  | cons first rest ih =>
    rw [Lowering.items, List.filterMap_append, List.append_eq_nil_iff] at hClean
    have hFirst := h.item (hWidth first List.mem_cons_self) hClean.1
    have hRest := ih hFirst (fun item hItem => hWidth item (List.mem_cons_of_mem _ hItem)) hClean.2
    rwa [List.append_assoc] at hRest

end Tracks

theorem start_tracks (width : Nat) (module : String) : (start module).Tracks width [] := by
  refine ⟨start_valid width module, ?_, ?_, ?_, emptyEntry, rfl, .nil _⟩
  · intro name id hFound
    rw [start_eq, NameTable.find?_insert] at hFound
    split at hFound
    · rename_i hPuts
      cases hFound
      exact .inl ⟨hPuts, rfl⟩
    · cases hFound
  · intro name parameters e hDefinition
    cases hDefinition
  · intro id f hFound hName _
    rw [get?_start] at hFound
    split at hFound
    · cases hFound
      rfl
    · split at hFound
      · cases hFound
        cases hName
      · cases hFound

end Lowering

/-- A module holds all that a program defines, and its top-level expressions in the entry function. -/
structure Module.Compiles (width : Nat) (program : List Item) (module : Module) : Prop
    extends Module.Realizes width program module where
  widths : ∀ e ∈ Evaluation.topLevel program, e.widest ≤ width
  entry : ∃ body plan, module.get? ⟨1⟩ =
      some (body.draft.function.append body.draft.block (.ret none)) ∧
    body.Ready ⟨module.signature?, width⟩ plan ∧ body.diagnostics = [] ∧
    Lowers module.Resolves ⟨⟨emptyEntry, ⟨0⟩⟩, .empty, []⟩ (Evaluation.topLevel program) body

theorem Lowering.Tracks.finish {width : Nat} {program : List Item} {state : Lowering}
    (h : state.Tracks width program) (hWidth : ∀ item ∈ program, item.widest ≤ width) :
    state.finish.Compiles width program := by
  obtain ⟨f, hFound, hLowers⟩ := h.entry
  obtain ⟨f', plan, hGet, hName, -, -, hReady, -⟩ := h.valid.entry
  have hLowered := h.valid.finish
  rw [h.valid.entry_eq] at hGet
  cases hFound.symm.trans hGet
  have hFinish : state.finish =
      (state.assembly.put ⟨1⟩ (f.append state.insertion (.ret none))).module := by
    rw [Lowering.finish, h.valid.entry_eq, hFound]
  rw [hFinish] at hLowered ⊢
  have hRetains : state.assembly.module.Retains
      (state.assembly.put ⟨1⟩ (f.append state.insertion (.ret none))).module :=
    retains_put hFound rfl rfl (.inr rfl)
  have hContext : (state.assembly.put ⟨1⟩ (f.append state.insertion (.ret none))).module.signature? =
      (state.context width).signature? := Assembly.signature?_put hFound rfl
  refine ⟨⟨hLowered, fun name parameters e => h.defined_of_retains hRetains, ?_⟩, ?_, ?_⟩
  · intro key g hKey hReserved hNone
    change (state.assembly.put _ _).get? key = some g at hKey
    rw [Assembly.get?_put] at hKey
    split at hKey
    · cases hKey
      cases (congrArg isReserved hName).symm.trans hReserved
    · exact h.declared key g hKey hReserved hNone
  · intro e hMem
    obtain ⟨item, hItem, hEq⟩ := List.mem_filterMap.mp hMem
    cases item with
    | expression body =>
      cases hEq
      exact hWidth _ hItem
    | declaration | definition => cases hEq
  · refine ⟨⟨⟨f, state.insertion⟩, state.scope, []⟩, plan, ?_, hContext ▸ hReady, rfl,
      hLowers.mono fun _ _ hCallee => hCallee.retains hRetains⟩
    exact (Assembly.get?_put _ _ _ _).trans (if_pos rfl)

theorem lowerProgram_compiles (name : String) {program : List Item}
    (hClean : (lowerProgram name program).2.filterMap Event.diagnostic? = []) :
    (lowerProgram name program).1.Compiles (widestItem program) program := by
  have hWidth : ∀ item ∈ program, item.widest ≤ widestItem program :=
    fun item hItem => widest_le_widestItem hItem
  exact (Tracks.items program (start_tracks _ name) hWidth hClean).finish hWidth

namespace Module

/-- A call of a function with a body starts with a frame of it. -/
theorem Lowered.start_eq {width : Nat} {module : Module} (h : module.Lowered width) {id : FunctionId}
    {f : Function} (hFound : module.get? id = some f) (hBody : f.isDeclaration = false)
    {arguments : List Word} (hLength : arguments.length = f.parameters.length) (sink : Sink) :
    Machine.start standardHost module f.name arguments sink =
      proceed {} sink (Frame.enter f arguments none) := by
  rw [Machine.start, h.findLast?_eq hFound]
  dsimp only
  rw [if_neg (not_not.mpr hLength), if_neg (by rw [hBody]; exact Bool.false_ne_true)]

namespace Compiles

variable {width : Nat} {program : List Item} {module : Module} (h : module.Compiles width program)
  (limit fuel : Nat)
include h

theorem call_follows {name : String} {parameters : List Name} {e : Expr}
    (hDefinition : definition? program name = some (parameters, e)) {arguments : List Word}
    (hLength : arguments.length = parameters.length) :
    Follows module limit fuel (Machine.start standardHost module name arguments {})
      (fun result after p => p = .halted (.ok result) { written := after.written })
      (Evaluation.apply parameters arguments (eval (invoke program limit fuel 1) fuel e) {}) := by
  obtain ⟨hWidth, -, id, f, hFound, rfl, hBody, hDefines⟩ := h.defined name parameters e hDefinition
  rw [h.lowered.start_eq hFound hBody (hLength.trans (h.lowered.length_parameters hDefines hWidth).symm)]
  refine (h.lowered.enter_follows hDefines hWidth (fun scope name callee hCallee =>
    h.answers limit (Nat.le_refl fuel) {} f scope hCallee) hLength none {}).mono ?_
  rintro _ after _ ⟨-, word, rfl, rfl⟩
  rfl

theorem main_follows :
    Follows module limit fuel (Machine.start standardHost module entryName [] {})
      (fun result after p => p = .halted (.ok result) { written := after.written })
      ((Evaluation.sequence (invoke program limit fuel 1) fuel none (Evaluation.topLevel program) >>=
        fun _ => pure none : Eval (Option Word)) {}) := by
  obtain ⟨body, plan, hFound, hReady, hClean, hLowers⟩ := h.entry
  obtain ⟨f, plan', hEntry, hName, -, hSignature, hSize, hStaged, -⟩ := h.lowered.entry
  have hFunction := Option.some.inj (hEntry.symm.trans hFound)
  have hFramed := hStaged.sound.framed
  have hHere := hReady.draft.block_lt
  have hGrows : body.draft.function.Grows f := by
    rw [hFunction, ← Function.add_eq_append _ _ (rfl : (Instruction.ret none).targets = [])]
    exact Function.grows_add hHere rfl
  have hRet : f.bodyAt body.draft.block = body.draft.function.bodyAt body.draft.block ++ [.ret none] := by
    rw [hFunction]
    exact bodyAt_append hHere rfl rfl
  let a : Activation := ⟨module, limit, fuel, {}, f, body.scope⟩
  have ha : a.Fit := hReady.fit hFramed hGrows rfl
  have hLength : ([] : List Word).length = f.parameters.length := by
    rw [hFramed.arity, hSignature]
    rfl
  have hOpen : (⟨⟨emptyEntry, ⟨0⟩⟩, .empty, []⟩ : Body).Ready ⟨module.signature?, width⟩
      (Function.openPlan []) :=
    ⟨Function.ready_open entryName { parameters := [], result := .void } .internal _
      fun _ hTy => absurd hTy List.not_mem_nil, fun _ _ hSlot => by cases hSlot⟩
  have hSimulates : Simulates a ⟨module.signature?, width⟩ (Function.openPlan [])
      ⟨⟨emptyEntry, ⟨0⟩⟩, .empty, []⟩ (fun _ => True) (fun _ => ((), body))
      (Evaluation.sequence (invoke program limit fuel 1) fuel none (Evaluation.topLevel program))
      (fun _ _ _ => True) (fun _ _ _ _ => True) :=
    hLowers.simulates h.lowered ha
      (fun name callee hCallee => h.answers limit (Nat.le_refl fuel) {} f body.scope hCallee)
      (Nat.le_refl fuel) h.widths hOpen
  have hFollows := hSimulates.2 ⟨hGrows, fun _ _ hSlot => hSlot, hClean⟩ (Frame.entered f [] none) {}
    (ha.startsAt [] none _ _ rfl (Function.bodyAt_open _ _ _ _)) trivial
  obtain ⟨n, hEnter⟩ := hFramed.enter hSize standardHost module limit {} {} [] none
  rw [← hName, h.lowered.start_eq hEntry ((Function.isDeclaration_eq_false_iff _).mpr hSize) hLength]
  refine .after hEnter (Nat.le_add_left _ _) (.bind hFollows ?_)
  rintro _ after _ ⟨next, rfl, hStands, -, -⟩
  exact .after (hStands.ret hRet fun _ => rfl) (Nat.le_add_left _ _) (.now rfl)

end Compiles

end Module

/-- A machine and an evaluation end with the same results and outputs, or both go on forever. -/
def Agree (run : Nat → Progress Sink)
    (evaluation : Nat → Option (Except ExecutionError (Option Word) × String)) : Prop :=
  (∀ outcome written, (∃ n, run n = .halted (outcome.mapError Stop.error) { written }) ↔
    ∃ fuel, evaluation fuel = some (outcome, written)) ∧
  ((∀ n, ∃ frame callers sink, run n = .running frame callers sink) ↔ ∀ fuel, evaluation fuel = none)

/-- An evaluation that answers with some fuel is reached by the machine, and one that does not
outlasts it. -/
theorem Follows.cases {module : Module} {limit fuel : Nat} {p : Progress Sink}
    {action : Eval (Option Word)}
    (h : Follows module limit fuel p
      (fun result after q => q = .halted (.ok result) { written := after.written }) (action {})) :
    (∃ outcome written n, answer action = some (outcome, written) ∧
      advance standardHost module limit n p = .halted (outcome.mapError Stop.error) { written }) ∨
    answer action = none ∧ ∃ n frame callers sink, fuel ≤ n ∧
      advance standardHost module limit n p = .running frame callers sink := by
  rw [answer]
  match action {}, h with
  | (.ok result, after), ⟨n, hHalted⟩ => exact .inl ⟨.ok result, after.written, n, rfl, hHalted⟩
  | (.error (.error error), after), ⟨n, hHalted⟩ =>
    exact .inl ⟨.error error, after.written, n, rfl, hHalted⟩
  | (.error .exhausted, _), ⟨n, hLe, frame, callers, sink, hRunning⟩ =>
    exact .inr ⟨rfl, n, frame, callers, sink, hLe, hRunning⟩

theorem mapError_injective {outcome other : Except ExecutionError (Option Word)}
    (h : outcome.mapError Stop.error = other.mapError Stop.error) : outcome = other := by
  match outcome, other, h with
  | .ok _, .ok _, h => cases h; rfl
  | .error _, .error _, h => cases h; rfl

theorem agree_of_follows {module : Module} {limit : Nat} {p : Progress Sink}
    {action : Nat → Eval (Option Word)}
    (h : ∀ fuel, Follows module limit fuel p
      (fun result after q => q = .halted (.ok result) { written := after.written }) (action fuel {})) :
    Agree (fun n => advance standardHost module limit n p) fun fuel => answer (action fuel) := by
  constructor
  · intro outcome written
    constructor
    · rintro ⟨n, hHalted⟩
      rcases (h (n + 1)).cases with ⟨found, text, m, hAnswer, hFound⟩ | ⟨-, m, _, _, _, hLe, hRunning⟩
      · obtain ⟨hResult, hSink⟩ := halted_unique hHalted hFound
        cases congrArg Sink.written hSink
        cases mapError_injective hResult
        exact ⟨n + 1, hAnswer⟩
      · rw [advance_of_le hHalted (Nat.le_of_succ_le hLe)] at hRunning
        cases hRunning
    · rintro ⟨fuel, hAnswer⟩
      rcases (h fuel).cases with ⟨found, text, m, hFound, hHalted⟩ | ⟨hNone, -⟩
      · cases hAnswer.symm.trans hFound
        exact ⟨m, hHalted⟩
      · cases hAnswer.symm.trans hNone
  · constructor
    · intro hRunning fuel
      rcases (h fuel).cases with ⟨found, text, m, -, hHalted⟩ | ⟨hNone, -⟩
      · obtain ⟨_, _, _, hRunning⟩ := hRunning m
        cases hHalted.symm.trans hRunning
      · exact hNone
    · intro hNone n
      rcases (h n).cases with ⟨found, text, m, hFound, -⟩ | ⟨-, m, _, _, _, hLe, hRunning⟩
      · cases (hNone n).symm.trans hFound
      · cases hRun : advance standardHost module limit n p with
        | running frame callers sink => exact ⟨frame, callers, sink, hRun⟩
        | halted result sink =>
          rw [advance_of_le hRun hLe] at hRunning
          cases hRunning

/-- Lowering preserves meaning: a program that is lowered without a diagnostic runs as it is evaluated, and
so does each of its functions, under every limit on calls. -/
theorem lowerProgram_agrees (name : String) (program : List Item)
    (hClean : (lowerProgram name program).2.filterMap Event.diagnostic? = []) (limit : Nat) :
    Agree (fun n => Machine.call standardHost (lowerProgram name program).1 limit n "main" [] {})
      (Evaluation.main program limit) ∧
    ∀ f parameters body, definition? program f = some (parameters, body) →
      ∀ arguments : List Word, arguments.length = parameters.length →
        Agree (fun n => Machine.call standardHost (lowerProgram name program).1 limit n f arguments {})
          (fun fuel => Evaluation.call program limit fuel f arguments) := by
  have hCompiles := lowerProgram_compiles name hClean
  refine ⟨agree_of_follows (hCompiles.main_follows limit), ?_⟩
  intro f parameters body hDefinition arguments hLength
  have hCall : ∀ fuel, Evaluation.call program limit fuel f arguments =
      answer (Evaluation.apply parameters arguments (eval (invoke program limit fuel 1) fuel body)) := by
    intro fuel
    rw [Evaluation.call, hDefinition]
  simp only [hCall]
  exact agree_of_follows fun fuel => hCompiles.call_follows limit fuel hDefinition hLength

/-- The sum of the numbers up to 2, as evaluation finds it. -/
theorem lowerProgram_agrees_countdown :
    (lowerProgram "m" countdown).2.filterMap Event.diagnostic? = [] ∧
      ∃ n, Machine.call standardHost (lowerProgram "m" countdown).1 5 n "down" [2] {} =
        .halted (.ok (some 3)) {} := by
  have hClean : (lowerProgram "m" countdown).2.filterMap Event.diagnostic? = [] :=
    List.isEmpty_iff.mp (by decide +kernel)
  have hEvaluates : Evaluation.call countdown 5 3 "down" [2] = some (.ok (some 3), "") := by
    rfl
  exact ⟨hClean, ((((lowerProgram_agrees "m" countdown hClean 5).2 "down" _ _ rfl [2] rfl).1
    (.ok (some 3)) "").mpr ⟨3, hEvaluates⟩)⟩

end Slate
