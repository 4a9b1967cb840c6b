import Slate.Proofs.Verified

/-! # Names and ids of functions

After every item, functions have different names, the table of callable names leads to functions of those
names, and nothing calls the entry function. Ids are given out once: an id that is no longer in use stays
so. In the finished module the first and the last function of a name are the same.
-/

namespace Slate
set_option autoImplicit false

/-- The symbol of the function that programs call by a name. -/
def symbolOf (name : String) : String :=
  ((hostFunctions.find? (·.name = name)).map HostFunction.symbol).getD name

theorem symbolOf_of_ne {name : String} (h : name ≠ "puts") : symbolOf name = name := by
  simp [symbolOf, hostFunctions, h.symm]

/-- No instruction of the module calls the function. -/
def Assembly.NeverCalls (assembly : Assembly) (callee : FunctionId) : Prop :=
  ∀ id f, assembly.get? id = some f → ∀ instruction ∈ f.code, instruction.calls callee = false

/-- Ids that were given out before name the same functions as before, or none. -/
structure Assembly.Continues (before after : Assembly) : Prop where
  next : before.next.index ≤ after.next.index
  old : ∀ id f, id.index < before.next.index → after.get? id = some f →
    ∃ f', before.get? id = some f' ∧ f'.name = f.name ∧ f'.signature = f.signature

/-- The names, the table and the calls of a program are in step. -/
structure Lowering.Consistent (state : Lowering) : Prop where
  unique : ∀ id other f f', state.assembly.get? id = some f → state.assembly.get? other = some f' →
    f.name = f'.name → id = other
  fresh : ∀ id f, state.assembly.get? id = some f → id.index < state.assembly.next.index
  table : ∀ name id, state.functions.find? name = some id →
    ∃ f, state.assembly.get? id = some f ∧ f.name = symbolOf name
  entry : ∃ f, state.assembly.get? state.entry = some f ∧ f.name = entryName
  uncallable : ∀ name, state.functions.find? name ≠ some state.entry
  uncalled : state.assembly.NeverCalls state.entry

namespace Assembly

theorem get?_discard (assembly : Assembly) (id key : FunctionId) (f : Function) :
    (assembly.discard id f).get? key = if key = id then
        if (assembly.put id f.withoutBody).module.isReferenced id then some f.withoutBody else none
      else assembly.get? key := by
  have hPut := get?_put assembly id key f.withoutBody
  rw [discard]
  split
  · exact hPut
  · have hErase := IdMap.get?_erase (assembly.put id f.withoutBody).module.functions id key
    refine hErase.trans ?_
    split
    · rfl
    · rename_i hNe
      exact hPut.trans (if_neg hNe)

namespace Continues

theorem refl (assembly : Assembly) : Continues assembly assembly :=
  ⟨Nat.le_refl _, fun _ f _ hFound => ⟨f, hFound, rfl, rfl⟩⟩

theorem trans {first second third : Assembly} (h : Continues first second)
    (hNext : Continues second third) : Continues first third := by
  refine ⟨Nat.le_trans h.next hNext.next, ?_⟩
  intro id f hId hFound
  obtain ⟨f', hFound', hName, hSignature⟩ := hNext.old id f (Nat.lt_of_lt_of_le hId h.next) hFound
  obtain ⟨f'', hFound'', hName', hSignature'⟩ := h.old id f' hId hFound'
  exact ⟨f'', hFound'', hName'.trans hName, hSignature'.trans hSignature⟩

theorem put {assembly : Assembly} {id : FunctionId} {f f' : Function}
    (hFound : assembly.get? id = some f) (hName : f'.name = f.name)
    (hSignature : f'.signature = f.signature) : assembly.Continues (assembly.put id f') := by
  refine ⟨Nat.le_refl _, ?_⟩
  intro key g _ hKey
  rw [get?_put] at hKey
  split at hKey
  · rename_i hEq
    cases hKey
    exact ⟨f, hEq ▸ hFound, hName.symm, hSignature.symm⟩
  · exact ⟨g, hKey, rfl, rfl⟩

theorem declare (assembly : Assembly) (name : String) (signature : Signature) (linkage : Linkage) :
    assembly.Continues (assembly.declare name signature linkage) := by
  refine ⟨Nat.le_succ _, ?_⟩
  intro key g hId hKey
  rw [get?_declare, if_neg (Id.ne_of_index_lt hId)] at hKey
  exact ⟨g, hKey, rfl, rfl⟩

theorem discard {assembly : Assembly} {id : FunctionId} {f : Function}
    (hFound : assembly.get? id = some f) : assembly.Continues (assembly.discard id f) := by
  have hPut : assembly.Continues (assembly.put id f.withoutBody) := put hFound rfl rfl
  rw [Assembly.discard]
  split
  · exact hPut
  · refine hPut.trans ⟨Nat.le_refl _, ?_⟩
    intro key g _ hKey
    refine ⟨g, ?_, rfl, rfl⟩
    have hGet := IdMap.get?_erase (assembly.put id f.withoutBody).module.functions id key
    rw [show IdMap.get? _ key = some g from hKey] at hGet
    split at hGet
    · cases hGet
    · exact hGet.symm

end Continues

namespace NeverCalls

variable {assembly : Assembly} {callee : FunctionId} (h : assembly.NeverCalls callee)
include h

theorem put (id : FunctionId) {f : Function}
    (hCode : ∀ instruction ∈ f.code, instruction.calls callee = false) :
    (assembly.put id f).NeverCalls callee := by
  intro key g hKey
  rw [get?_put] at hKey
  split at hKey
  · cases hKey
    exact hCode
  · exact h key g hKey

theorem declare (name : String) (signature : Signature) (linkage : Linkage) :
    (assembly.declare name signature linkage).NeverCalls callee := by
  intro key g hKey
  rw [get?_declare] at hKey
  split at hKey
  · cases hKey
    intro instruction hMem
    cases hMem
  · exact h key g hKey

theorem discard (id : FunctionId) (f : Function) : (assembly.discard id f).NeverCalls callee := by
  have hPut : (assembly.put id f.withoutBody).NeverCalls callee := by
    apply h.put
    intro instruction hMem
    cases hMem
  rw [Assembly.discard]
  split
  · exact hPut
  · intro key g hKey
    have hGet := IdMap.get?_erase (assembly.put id f.withoutBody).module.functions id key
    rw [show IdMap.get? _ key = some g from hKey] at hGet
    split at hGet
    · cases hGet
    · exact hPut key g hGet.symm

end NeverCalls
end Assembly

/-! ### Bodies call what the table names -/

namespace Lowering

/-- The functions that programs can call: all but the entry function. -/
def callable (width : Nat) (state : Lowering) : Context where
  signature? id := if id = state.entry then none else state.assembly.module.signature? id
  width := width

theorem callees_agree_callable {width : Nat} {state : Lowering} (h : state.Valid width) :
    state.callees.Agree (state.callable width) := by
  intro name callee hCallee
  have hAgree := callees_agree width state name callee hCallee
  obtain ⟨id, hId, hRest⟩ := Option.bind_eq_some_iff.mp hCallee
  obtain ⟨f, -, hEq⟩ := Option.bind_eq_some_iff.mp hRest
  cases hEq
  exact (if_neg (h.table name id hId).1).trans hAgree

/-- A body without calls of the entry function may be continued with callable functions only. -/
theorem sameCallees_callable {width : Nat} {state : Lowering} {f : Function}
    (h : ∀ instruction ∈ f.code, instruction.calls state.entry = false) :
    f.SameCallees (state.context width) (state.callable width) := by
  intro id callee arguments destination hMem signature hSignature
  have hCalls := h _ (Function.mem_code_of_mem_bodyAt hMem)
  rw [Instruction.calls, decide_eq_false_iff_not] at hCalls
  exact (if_neg hCalls).trans hSignature

end Lowering

open Lowering

theorem Function.Staged.signature_of_calls {context : Context} {plan : Plan} {f : Function}
    (h : f.Staged context plan) {instruction : Instruction} (hMem : instruction ∈ f.code)
    {callee : FunctionId} (hCalls : instruction.calls callee = true) :
    ∃ signature, context.signature? callee = some signature := by
  obtain ⟨block, hBlock, hCode⟩ := List.mem_flatMap.mp hMem
  obtain ⟨id, hGet⟩ := (Table.mem_toList_iff _ _).mp hBlock
  rw [← f.codeAt_of_get? hGet, h.sound.framed.code, List.mem_append] at hCode
  rcases hCode with hPrologue | hBody
  · obtain ⟨-, slot, -, rfl⟩ := f.mem_prologueAt hPrologue
    cases hCalls
  · cases instruction with
    | call target arguments destination =>
      obtain ⟨signature, hSignature, -⟩ := h.calls id _ hBody
      rw [Instruction.calls, decide_eq_true_eq] at hCalls
      exact ⟨signature, hCalls ▸ hSignature⟩
    | alloca _ | load _ _ | store _ _ | arith _ _ _ _ | compare _ _ _ _ | extend _ _ _ | phi _ _
    | jump _ | branch _ _ _ | ret _ => cases hCalls

theorem Function.Staged.uncalled {width : Nat} {state : Lowering} {plan : Plan} {f : Function}
    (h : f.Staged (state.callable width) plan) :
    ∀ instruction ∈ f.code, instruction.calls state.entry = false := by
  intro instruction hMem
  rw [← Bool.not_eq_true]
  intro hCalls
  obtain ⟨signature, hSignature⟩ := h.signature_of_calls hMem hCalls
  cases (if_pos rfl).symm.trans hSignature

namespace Lowering

/-- An accepted prototype binds its name to a function that was there, or to a new one. -/
theorem prototype_cases {state declared : Lowering} {head : Prototype} {id : FunctionId}
    {events : List Event} (hOk : state.prototype head = .ok (id, declared, events)) :
    isReserved head.name.text = false ∧
      (declared = { state with functions := state.functions.insert head.name.text id } ∨
        declared = { state with
          assembly := state.assembly.declare head.name.text (.ofArity head.parameters.length) .external
          functions := state.functions.insert head.name.text state.assembly.next }) := by
  rw [prototype] at hOk
  by_cases hReserved : isReserved head.name.text = true
  · simp only [hReserved, if_true] at hOk
    cases hOk
  · rw [Bool.not_eq_true] at hReserved
    simp only [hReserved, Bool.false_eq_true, if_false] at hOk
    refine ⟨hReserved, ?_⟩
    split at hOk
    · cases hOk
    · split at hOk
      · split at hOk
        · cases hOk
        · split at hOk
          · cases hOk
          · cases hOk
            exact .inl rfl
      · cases hOk
        exact .inr rfl

/-- What is known of the state between items, beside that it is valid. -/
structure Orderly (width : Nat) (state : Lowering) : Prop where
  valid : state.Valid width
  reserved : ∀ name id, state.functions.find? name = some id → isReserved name = true → name = "puts"
  uncalled : state.assembly.NeverCalls state.entry

theorem start_orderly (width : Nat) (module : String) : (start module).Orderly width := by
  refine ⟨start_valid width module, ?_, ?_⟩
  · intro name id hFound _
    rw [start_eq, NameTable.find?_insert, NameTable.find?_empty] at hFound
    split at hFound
    · rename_i hName
      exact hName
    · cases hFound
  · intro id f hFound
    rw [get?_start] at hFound
    split at hFound
    · cases hFound
      intro instruction hMem
      cases hMem
    · split at hFound
      · cases hFound
        intro instruction hMem
        cases hMem
      · cases hFound

/-- A state that comes from another by lowering items. -/
structure After (width : Nat) (before after : Lowering) : Prop where
  orderly : after.Orderly width
  entry : after.entry = before.entry
  continues : before.assembly.Continues after.assembly

theorem After.trans {width : Nat} {first second third : Lowering} (h : After width first second)
    (hNext : After width second third) : After width first third :=
  ⟨hNext.orderly, hNext.entry.trans h.entry, h.continues.trans hNext.continues⟩

namespace Orderly

variable {width : Nat} {state : Lowering} (h : state.Orderly width)
include h

theorem refl : After width state state := ⟨h, rfl, .refl _⟩

theorem reserved_insert {name : String} (hName : isReserved name = false) (id : FunctionId) :
    ∀ other found, (state.functions.insert name id).find? other = some found →
      isReserved other = true → other = "puts" := by
  intro other found hFound hReserved
  rw [NameTable.find?_insert] at hFound
  split at hFound
  · rename_i hEq
    rw [hEq, hName] at hReserved
    cases hReserved
  · exact h.reserved other found hFound hReserved

theorem reserved_erase (name : String) :
    ∀ other found, (state.functions.erase name).find? other = some found →
      isReserved other = true → other = "puts" := by
  intro other found hFound hReserved
  rw [NameTable.find?_erase] at hFound
  split at hFound
  · cases hFound
  · exact h.reserved other found hFound hReserved

theorem prototype {head : Prototype} {id : FunctionId} {declared : Lowering} {events : List Event}
    (hOk : state.prototype head = .ok (id, declared, events)) : After width state declared := by
  obtain ⟨hValid, -, -⟩ := h.valid.prototype hOk
  obtain ⟨hName, rfl | rfl⟩ := prototype_cases hOk
  · exact ⟨⟨hValid, h.reserved_insert hName id, h.uncalled⟩, rfl, .refl _⟩
  · exact ⟨⟨hValid, h.reserved_insert hName _, h.uncalled.declare _ _ _⟩, rfl, .declare _ _ _ _⟩

theorem definition (head : Prototype) {e : Expr} (hWidth : e.widest ≤ width) :
    After width state (state.definition head e).1 := by
  have hValid := h.valid.definition head hWidth
  rcases h.valid.definition_cases head e with ⟨problem, -, hEq⟩ | ⟨id, declared, events, hOk, hCases⟩
  · rw [hEq]
    exact h.refl
  · have hDeclared := h.prototype hOk
    obtain ⟨-, -, hGet⟩ := h.valid.prototype hOk
    refine hDeclared.trans ?_
    rcases hCases with ⟨final, -, hEq⟩ | ⟨value, final, hFinal, hEq⟩
    · rw [hEq] at hValid ⊢
      exact ⟨⟨hValid, hDeclared.orderly.reserved_erase _, hDeclared.orderly.uncalled.discard _ _⟩, rfl,
        .discard hGet⟩
    · rw [hEq] at hValid ⊢
      obtain ⟨hGrows, plan, hStaged, -⟩ :=
        definitionBody_opened (callees_agree_callable hDeclared.orderly.valid) _ _ _ hWidth hFinal
      have hUncalled := hDeclared.orderly.uncalled.put id hStaged.uncalled
      exact ⟨⟨hValid, hDeclared.orderly.reserved, hUncalled⟩, rfl, .put hGet hGrows.name hGrows.signature⟩

theorem topLevel {e : Expr} (hWidth : e.widest ≤ width) : After width state (state.topLevel e).1 := by
  have hValid := h.valid.topLevel hWidth
  obtain ⟨f, plan, hGet, -, -, -, hReady, -⟩ := h.valid.entry
  rw [Lowering.topLevel, hGet] at hValid ⊢
  have hCallable := hReady.transfer (sameCallees_callable (h.uncalled _ f hGet)) (Nat.le_refl width)
  obtain ⟨plan', hMoves, -⟩ :=
    expression_leads (callees_agree_callable h.valid) e hWidth plan _ hCallable
  have hGrows := hMoves.flow.extends_.grows
  have hUncalled := h.uncalled.put state.entry hMoves.ready.draft.staged.uncalled
  exact ⟨⟨hValid, h.reserved, hUncalled⟩, rfl, .put hGet hGrows.name hGrows.signature⟩

theorem item {item : Item} (hWidth : item.widest ≤ width) : After width state (state.item item).1 := by
  cases item with
  | declaration span head =>
    rw [Lowering.item]
    split
    · exact h.refl
    · rename_i hOk
      exact h.prototype hOk
  | definition span head e => exact h.definition head hWidth
  | expression e => exact h.topLevel hWidth

omit h in
/-- The run lemma: what one item keeps, a whole program keeps. -/
theorem items (program : List Item) {state : Lowering} (h : state.Orderly width)
    (hWidth : ∀ item ∈ program, item.widest ≤ width) : After width state (state.items program).1 := by
  induction program generalizing state with
  | nil => exact h.refl
  | cons first rest ih =>
    have hFirst := h.item (hWidth first List.mem_cons_self)
    exact hFirst.trans (ih hFirst.orderly fun item hItem => hWidth item (List.mem_cons_of_mem _ hItem))

/-- The only name for which the table leads to a function of another name is that of the host's function. -/
theorem consistent : state.Consistent where
  unique := h.valid.unique
  fresh := h.valid.fresh
  table := by
    intro name id hFound
    obtain ⟨hNotEntry, f, hGet, hName⟩ := h.valid.table name id hFound
    refine ⟨f, hGet, ?_⟩
    by_cases hPuts : name = "puts"
    · subst hPuts
      by_cases hHost : id = ⟨0⟩
      · subst hHost
        rw [h.valid.host] at hGet
        cases hGet
        decide
      · have hWritten := (h.valid.written id f hGet hHost hNotEntry).name
        rcases hName with hName | hName
        · rw [hName] at hWritten
          exact absurd hWritten (by decide)
        · exact absurd hName.2 hHost
    · have hReserved : isReserved name ≠ true := fun hReserved => hPuts (h.reserved name id hFound hReserved)
      rw [symbolOf_of_ne hPuts]
      rcases hName with hName | hName
      · exact hName
      · exact absurd hName.1 hReserved
  entry := by
    obtain ⟨f, _, hGet, hName, _⟩ := h.valid.entry
    exact ⟨f, hGet, hName⟩
  uncallable := fun name hFound => (h.valid.table name _ hFound).1 rfl
  uncalled := h.uncalled

end Orderly

theorem Valid.get?_finish {width : Nat} {state : Lowering} (h : state.Valid width) {id : FunctionId}
    (hId : id ≠ state.entry) : state.finish.get? id = state.assembly.get? id := by
  obtain ⟨f, _, hGet, _⟩ := h.entry
  rw [Lowering.finish, hGet]
  exact (Assembly.get?_put _ _ _ _).trans (if_neg hId)

end Lowering

/-! ### Resolving a name -/

theorem find?_eq_some_of_unique {α : Type} {entries : List α} {test : α → Bool} {a : α} (hMem : a ∈ entries)
    (hTest : test a = true) (hUnique : ∀ b ∈ entries, test b = true → b = a) :
    entries.find? test = some a := by
  cases hFind : entries.find? test with
  | none => exact absurd hTest (List.find?_eq_none.mp hFind a hMem)
  | some b => rw [hUnique b (List.mem_of_find?_eq_some hFind) (List.find?_some hFind)]

namespace Module.Lowered

variable {width : Nat} {module : Module} (h : module.Lowered width)
include h

theorem eq_of_name {name : String} {id : FunctionId} {f : Function} (hFound : module.get? id = some f)
    (hName : f.name = name) : ∀ entry ∈ module.functions.entries,
      decide (entry.2.name = name) = true → entry = (id, f) := by
  rintro ⟨other, g⟩ hEntry hTest
  have hOther := (h.sorted.mem_entries_iff other g).mp hEntry
  obtain rfl := h.unique other id g f hOther hFound ((of_decide_eq_true hTest).trans hName.symm)
  obtain rfl := Option.some.inj (hOther.symm.trans hFound)
  rfl

theorem find?_iff (name : String) (id : FunctionId) (f : Function) :
    module.functions.find? (·.name = name) = some (id, f) ↔ module.get? id = some f ∧ f.name = name := by
  constructor
  · intro hFind
    have hMem := List.mem_of_find?_eq_some hFind
    have hTest := List.find?_some hFind
    exact ⟨(h.sorted.mem_entries_iff id f).mp hMem, of_decide_eq_true hTest⟩
  · rintro ⟨hFound, hName⟩
    have hMem := (h.sorted.mem_entries_iff id f).mpr hFound
    exact find?_eq_some_of_unique hMem (decide_eq_true hName) (h.eq_of_name hFound hName)

theorem findLast?_iff (name : String) (id : FunctionId) (f : Function) :
    module.functions.findLast? (·.name = name) = some (id, f) ↔
      module.get? id = some f ∧ f.name = name := by
  constructor
  · intro hFind
    have hMem := List.mem_reverse.mp (List.mem_of_find?_eq_some hFind)
    have hTest := List.find?_some hFind
    exact ⟨(h.sorted.mem_entries_iff id f).mp hMem, of_decide_eq_true hTest⟩
  · rintro ⟨hFound, hName⟩
    have hMem := (h.sorted.mem_entries_iff id f).mpr hFound
    refine find?_eq_some_of_unique (List.mem_reverse.mpr hMem) (decide_eq_true hName) ?_
    intro entry hEntry
    exact h.eq_of_name hFound hName entry (List.mem_reverse.mp hEntry)

theorem find?_eq_findLast? (name : String) :
    module.functions.find? (·.name = name) = module.functions.findLast? (·.name = name) := by
  apply Option.ext
  rintro ⟨id, f⟩
  rw [h.find?_iff, h.findLast?_iff]

theorem lookup?_eq {name : String} {id : FunctionId} {f : Function} (hFound : module.get? id = some f)
    (hName : f.name = name) : module.lookup? name = some id := by
  rw [lookup?, (h.find?_iff name id f).mpr ⟨hFound, hName⟩]
  rfl

end Module.Lowered

/-- Names and ids stay in step through whole programs. After whatever items, functions have different names,
the table leads from each name to the function of that name, the entry function is in no place of the
table and no call reaches it, and ids given out so far are not given out again, whatever items follow. In the
finished module the lookups by name agree with each other and with the table. -/
theorem Lowering.names_consistent (module : String) (program more : List Item) :
    let state := ((Lowering.start module).items program).1
    let later := (state.items more).1
    state.Consistent ∧ later.entry = state.entry ∧ state.assembly.Continues later.assembly ∧
      (∀ name, state.finish.functions.find? (·.name = name) =
          state.finish.functions.findLast? (·.name = name) ∧
        state.finish.lookup? name = (state.finish.functions.findLast? (·.name = name)).map Prod.fst ∧
        ∀ id f, state.finish.functions.findLast? (·.name = name) = some (id, f) ↔
          state.finish.get? id = some f ∧ f.name = name) ∧
      ∀ name id, state.functions.find? name = some id →
        state.finish.lookup? (symbolOf name) = some id := by
  intro state later
  have hWidest : ∀ item ∈ program ++ more, item.widest ≤ widestItem (program ++ more) :=
    fun item hItem => widest_le_widestItem hItem
  have hState := (start_orderly _ module).items program fun item hItem =>
    hWidest item (List.mem_append_left _ hItem)
  have hLater := hState.orderly.items more fun item hItem => hWidest item (List.mem_append_right _ hItem)
  have hFinish := hState.orderly.valid.finish
  have hConsistent := hState.orderly.consistent
  refine ⟨hConsistent, hLater.entry, hLater.continues, ?_, ?_⟩
  · intro name
    refine ⟨hFinish.find?_eq_findLast? name, ?_, hFinish.findLast?_iff name⟩
    rw [← hFinish.find?_eq_findLast?]
    rfl
  · intro name id hFound
    obtain ⟨f, hGet, hName⟩ := hConsistent.table name id hFound
    have hNotEntry : id ≠ state.entry := by
      rintro rfl
      exact hConsistent.uncallable name hFound
    exact hFinish.lookup?_eq ((hState.orderly.valid.get?_finish hNotEntry).trans hGet) hName

end Slate
