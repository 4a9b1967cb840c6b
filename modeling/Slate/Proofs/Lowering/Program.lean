import Slate.Proofs.Lowering.Definition

/-! # Lowering programs

`Lowering.Valid` holds after every item: names of functions are unique, the table of callable names leads to
functions that are there, finished functions are sound, and the entry function has one open block. When
a program ends, its module is `Module.Lowered`.
-/

namespace Slate
set_option autoImplicit false

theorem Function.mem_code_of_mem_bodyAt {f : Function} {id : BlockId} {instruction : Instruction}
    (h : instruction ∈ f.bodyAt id) : instruction ∈ f.code := by
  obtain ⟨block, hBlock⟩ := Table.exists_of_lt (f.lt_size_of_mem_bodyAt h)
  have hMem := (List.dropWhile_suffix _).subset h
  rw [f.codeAt_of_get? hBlock] at hMem
  exact (f.mem_code_iff instruction).mpr ⟨id, block, hBlock, hMem⟩

def Item.widest : Item → Nat
  | .declaration .. => 0
  | .definition _ _ body => body.widest
  | .expression body => body.widest

section Transfer

variable {context context' : Context}

/-- The functions that a function calls have the same signatures in both contexts. -/
def Function.SameCallees (context context' : Context) (f : Function) : Prop :=
  ∀ id callee arguments destination, .call callee arguments destination ∈ f.bodyAt id →
    ∀ signature, context.signature? callee = some signature →
      context'.signature? callee = some signature

theorem Function.SameCallees.of_extends {f : Function} (h : ∀ callee signature,
    context.signature? callee = some signature → context'.signature? callee = some signature) :
    f.SameCallees context context' :=
  fun _ callee _ _ _ signature => h callee signature

theorem Instruction.Fits.transfer {f : Function} {p : IdSet .block} {instruction : Instruction}
    (h : instruction.Fits context.signature? f p)
    (hSame : ∀ callee arguments destination, instruction = .call callee arguments destination →
      ∀ signature, context.signature? callee = some signature →
        context'.signature? callee = some signature) :
    instruction.Fits context'.signature? f p := by
  refine ⟨h.reads, h.writes, h.slot, h.typed, ?_⟩
  have hPlaced := h.placed
  cases instruction with
  | call callee arguments destination =>
    obtain ⟨signature, hSignature, hAccepts⟩ := hPlaced
    exact ⟨signature, hSame callee arguments destination rfl signature hSignature, hAccepts⟩
  | ret value => cases value <;> exact hPlaced
  | alloca _ | load _ _ | store _ _ | arith _ _ _ _ | compare _ _ _ _ | extend _ _ _ | phi _ _
  | jump _ | branch _ _ _ => exact hPlaced

theorem Instruction.Conforms.transfer {instruction : Instruction} (h : instruction.Conforms context)
    (hSame : ∀ callee arguments destination, instruction = .call callee arguments destination →
      ∀ signature, context.signature? callee = some signature →
        context'.signature? callee = some signature) (hWidth : context.width ≤ context'.width) :
    instruction.Conforms context' := by
  cases instruction with
  | call callee arguments destination =>
    obtain ⟨signature, hSignature, hResult, hCount⟩ := h
    refine ⟨signature, hSame callee arguments destination rfl signature hSignature, hResult, ?_⟩
    intro hVariadic
    obtain ⟨given, hLength, hGiven⟩ := hCount hVariadic
    exact ⟨given, Nat.le_trans hLength hWidth, hGiven⟩
  | alloca _ | load _ _ | store _ _ | arith _ _ _ _ | compare _ _ _ _ | extend _ _ _ | phi _ _
  | jump _ | branch _ _ _ | ret _ => trivial

theorem Function.Staged.transfer {plan : Plan} {f : Function} (h : f.Staged context plan)
    (hSame : f.SameCallees context context') (hWidth : context.width ≤ context'.width) :
    f.Staged context' plan := by
  have hCall : ∀ id, ∀ instruction ∈ f.bodyAt id, ∀ callee arguments destination,
      instruction = .call callee arguments destination → ∀ signature,
        context.signature? callee = some signature → context'.signature? callee = some signature := by
    rintro id _ hMem callee arguments destination rfl
    exact hSame id callee arguments destination hMem
  exact {
    sound := { h.sound with
      wired := { h.sound.wired with
        fits := fun id instruction hMem =>
          (h.sound.wired.fits id instruction hMem).transfer (hCall id instruction hMem) } }
    known := h.known
    unfinished := h.unfinished
    finished := h.finished
    calls := fun id instruction hMem =>
      (h.calls id instruction hMem).transfer (hCall id instruction hMem) hWidth }

theorem Lowering.Body.Ready.transfer {plan : Plan} {body : Lowering.Body}
    (h : body.Ready context plan) (hSame : body.draft.function.SameCallees context context')
    (hWidth : context.width ≤ context'.width) : body.Ready context' plan :=
  ⟨⟨h.draft.staged.transfer hSame hWidth, h.draft.here⟩, h.scope⟩

end Transfer

namespace Assembly

theorem get?_put (assembly : Assembly) (id key : FunctionId) (f : Function) :
    (assembly.put id f).get? key = if key = id then some f else assembly.get? key :=
  IdMap.get?_insert _ _ _ _

theorem get?_declare (assembly : Assembly) (name : String) (signature : Signature) (linkage : Linkage)
    (key : FunctionId) : (assembly.declare name signature linkage).get? key =
      if key = assembly.next then some (.bare name signature linkage) else assembly.get? key :=
  IdMap.get?_insert _ _ _ _

theorem signature?_eq (assembly : Assembly) (id : FunctionId) :
    assembly.module.signature? id = (assembly.get? id).map Function.signature :=
  rfl

theorem signature?_put {assembly : Assembly} {id : FunctionId} {f f' : Function}
    (hFound : assembly.get? id = some f) (hSignature : f'.signature = f.signature) :
    (assembly.put id f').module.signature? = assembly.module.signature? := by
  funext key
  rw [signature?_eq, signature?_eq, get?_put]
  split
  · rename_i hEq
    rw [hEq, hFound, Option.map_some, Option.map_some, hSignature]
  · rfl

/-- A function put in the place of another of its name adds no name. -/
theorem exists_of_get?_put {assembly : Assembly} {id key : FunctionId} {f f' g : Function}
    (hFound : assembly.get? id = some f) (hName : f'.name = f.name)
    (hKey : (assembly.put id f').get? key = some g) :
    ∃ g', assembly.get? key = some g' ∧ g'.name = g.name := by
  rw [get?_put] at hKey
  split at hKey
  · rename_i hEq
    cases hKey
    exact ⟨f, hEq ▸ hFound, hName.symm⟩
  · exact ⟨g, hKey, rfl⟩

end Assembly

/-- A function that is only declared, or whose body is finished. -/
def Function.Completed (context : Context) (f : Function) : Prop :=
  f = .bare f.name f.signature f.linkage ∨
    0 < f.blocks.size ∧ ∃ plan, f.Staged context plan ∧ plan.frontier = ∅

/-- A function that a program declares or defines. -/
structure Function.Written (context : Context) (f : Function) : Prop where
  name : Lowering.isReserved f.name = false
  linkage : f.linkage = .external
  signature : f.signature = .ofArity f.parameters.length
  completed : f.Completed context

theorem Function.Written.transfer {context context' : Context} {f : Function}
    (h : f.Written context) (hSame : f.SameCallees context context')
    (hWidth : context.width ≤ context'.width) : f.Written context' := by
  refine { h with completed := h.completed.imp_right ?_ }
  rintro ⟨hSize, plan, hStaged, hFrontier⟩
  exact ⟨hSize, plan, hStaged.transfer hSame hWidth, hFrontier⟩

theorem Function.Written.eq_bare {context : Context} {f : Function} (h : f.Written context)
    (hDeclaration : f.isDeclaration = true) :
    f = .bare f.name (.ofArity f.parameters.length) .external := by
  rcases h.completed with hBare | ⟨hSize, _⟩
  · rw [h.signature, h.linkage] at hBare
    exact hBare
  · have hEmpty : f.blocks.size = 0 := (Table.isEmpty_iff _).mp hDeclaration
    exact absurd hEmpty (Nat.ne_of_gt hSize)

namespace Lowering

/-- The declaration of `_puts`. -/
def hostFunction : Function :=
  .bare "_puts" { parameters := [.i32], result := .void, variadic := true } .external

def context (width : Nat) (state : Lowering) : Context where
  signature? := state.assembly.module.signature?
  width := width

structure Valid (width : Nat) (state : Lowering) : Prop where
  sorted : state.assembly.module.functions.Sorted
  fresh : ∀ id f, state.assembly.get? id = some f → id.index < state.assembly.next.index
  host : state.assembly.get? ⟨0⟩ = some hostFunction
  entry_eq : state.entry = ⟨1⟩
  entry : ∃ f plan, state.assembly.get? state.entry = some f ∧ f.name = entryName ∧
    f.linkage = .internal ∧ f.signature = { parameters := [], result := .void } ∧
    (⟨⟨f, state.insertion⟩, state.scope, []⟩ : Body).Ready (state.context width) plan ∧
    plan.frontier = {state.insertion}
  written : ∀ id f, state.assembly.get? id = some f → id ≠ ⟨0⟩ → id ≠ state.entry →
    f.Written (state.context width)
  unique : ∀ id other f f', state.assembly.get? id = some f → state.assembly.get? other = some f' →
    f.name = f'.name → id = other
  table : ∀ name id, state.functions.find? name = some id → id ≠ state.entry ∧
    ∃ f, state.assembly.get? id = some f ∧ (f.name = name ∨ isReserved name = true ∧ id = ⟨0⟩)

theorem callees_agree (width : Nat) (state : Lowering) : state.callees.Agree (state.context width) := by
  intro name callee hCallee
  rw [callees] at hCallee
  obtain ⟨id, hId, hRest⟩ := Option.bind_eq_some_iff.mp hCallee
  obtain ⟨f, hFound, hEq⟩ := Option.bind_eq_some_iff.mp hRest
  cases hEq
  change state.assembly.module.signature? id = _
  rw [Assembly.signature?_eq, hFound]
  rfl

namespace Valid

variable {width : Nat} {state : Lowering} (h : state.Valid width)
include h

theorem next_none : state.assembly.get? state.assembly.next = none := by
  cases hFound : state.assembly.get? state.assembly.next with
  | none => rfl
  | some f => exact absurd (h.fresh _ f hFound) (Nat.lt_irrefl _)

/-- A function of a name that programs can define. -/
theorem written_of_name {id : FunctionId} {f : Function} (hFound : state.assembly.get? id = some f)
    (hName : isReserved f.name = false) :
    id ≠ ⟨0⟩ ∧ id ≠ state.entry ∧ f.Written (state.context width) := by
  have hHost : id ≠ ⟨0⟩ := by
    rintro rfl
    rw [h.host] at hFound
    cases hFound
    revert hName
    decide
  have hEntry : id ≠ state.entry := by
    rintro rfl
    obtain ⟨entry, _, hEntry, hEntryName, _⟩ := h.entry
    rw [hEntry] at hFound
    cases hFound
    rw [hEntryName] at hName
    revert hName
    decide
  exact ⟨hHost, hEntry, h.written id f hFound hHost hEntry⟩

theorem mem_entries_iff (id : FunctionId) (f : Function) :
    (id, f) ∈ state.assembly.module.functions.entries ↔ state.assembly.get? id = some f :=
  h.sorted.mem_entries_iff id f

theorem lookup?_eq_some {name : String} {id : FunctionId}
    (hFound : state.assembly.module.lookup? name = some id) :
    ∃ f, state.assembly.get? id = some f ∧ f.name = name := by
  obtain ⟨⟨found, f⟩, hFind, rfl⟩ := Option.map_eq_some_iff.mp hFound
  refine ⟨f, (h.mem_entries_iff _ _).mp (List.mem_of_find?_eq_some hFind), ?_⟩
  simpa using List.find?_some hFind

theorem lookup?_eq_none {name : String} (hNone : state.assembly.module.lookup? name = none)
    {id : FunctionId} {f : Function} (hFound : state.assembly.get? id = some f) : f.name ≠ name := by
  have hFind := List.find?_eq_none.mp (Option.map_eq_none_iff.mp hNone) (id, f)
    ((h.mem_entries_iff id f).mpr hFound)
  simpa using hFind

/-- The function that a prototype of this name repeats. -/
theorem declared?_eq_some {name : String} (hName : isReserved name = false) {id : FunctionId}
    (hFound : state.declared? name = some id) : ∃ f, state.assembly.get? id = some f ∧ f.name = name := by
  rw [declared?] at hFound
  split at hFound
  · rename_i found hTable
    cases hFound
    obtain ⟨_, f, hGet, hEq | hReserved⟩ := h.table name id hTable
    · exact ⟨f, hGet, hEq⟩
    · rw [hName] at hReserved
      cases hReserved.1
  · exact h.lookup?_eq_some hFound

theorem declared?_eq_none {name : String} (hNone : state.declared? name = none) {id : FunctionId}
    {f : Function} (hFound : state.assembly.get? id = some f) : f.name ≠ name := by
  rw [declared?] at hNone
  split at hNone
  · cases hNone
  · exact h.lookup?_eq_none hNone hFound

end Valid

/-- The body of a definition, lowered into a function that has no more than its head. -/
def lowerBody (declared : Lowering) (head : Prototype) (e : Expr) : Option Operand × Body :=
  definitionBody declared.callees
    (head.parameters.zip
      (Function.bare head.name.text (.ofArity head.parameters.length) .external).parameters) e
    (opened head.name.text head.parameters.length)

section Definition

variable {state declared : Lowering} {head : Prototype} {id : FunctionId} {events : List Event}
  (hOk : state.prototype head = .ok (id, declared, events))
  (hGet : declared.assembly.get? id =
    some (.bare head.name.text (.ofArity head.parameters.length) .external)) {e : Expr} {final : Body}
include hOk hGet

theorem definition_of_some {value : Operand} (hFinal : declared.lowerBody head e = (some value, final)) :
    state.definition head e =
      ({ declared with assembly := declared.assembly.put id final.draft.function },
        events ++ final.diagnostics.map .diagnostic ++ [.lowered head.name.text]) := by
  rw [lowerBody, opened] at hFinal
  rw [definition, hOk]
  simp only [hGet, hFinal]

theorem definition_of_none (hFinal : declared.lowerBody head e = (none, final)) :
    state.definition head e =
      ({ declared with
          assembly := declared.assembly.discard id
            (.bare head.name.text (.ofArity head.parameters.length) .external)
          functions := declared.functions.erase head.name.text },
        events ++ final.diagnostics.map .diagnostic ++
          [.diagnostic ⟨.malformedBody head.name.text, e.span⟩]) := by
  rw [lowerBody, opened] at hFinal
  rw [definition, hOk]
  simp only [hGet, hFinal]

end Definition

theorem context_put {state : Lowering} (width : Nat) {id : FunctionId} {f f' : Function}
    (hFound : state.assembly.get? id = some f) (hSignature : f'.signature = f.signature)
    (functions : NameTable FunctionId) (insertion : BlockId) (scope : NameTable SlotId) :
    context width ⟨state.assembly.put id f', functions, state.entry, insertion, scope⟩ =
      state.context width :=
  congrArg (Context.mk · width) (Assembly.signature?_put hFound hSignature)

namespace Valid

variable {width : Nat} {state : Lowering} (h : state.Valid width)
include h

/-- A name is bound to a function of that name. -/
theorem bind {id : FunctionId} {f : Function} (hFound : state.assembly.get? id = some f)
    (hName : isReserved f.name = false) :
    ({ state with functions := state.functions.insert f.name id } : Lowering).Valid width := by
  refine { h with table := ?_ }
  intro name other hOther
  rw [NameTable.find?_insert] at hOther
  split at hOther
  · rename_i hEq
    cases hOther
    exact ⟨(h.written_of_name hFound hName).2.1, f, hFound, .inl hEq.symm⟩
  · exact h.table name other hOther

theorem unbind (name : String) :
    ({ state with functions := state.functions.erase name } : Lowering).Valid width := by
  refine { h with table := ?_ }
  intro other id hId
  rw [NameTable.find?_erase] at hId
  split at hId
  · cases hId
  · exact h.table other id hId

/-- A function that the program wrote is replaced by another with the same head. -/
theorem put {id : FunctionId} {f f' : Function} (hFound : state.assembly.get? id = some f)
    (hName : isReserved f.name = false) (hSame : f'.name = f.name)
    (hSignature : f'.signature = f.signature) (hWritten : f'.Written (state.context width)) :
    ({ state with assembly := state.assembly.put id f' } : Lowering).Valid width := by
  obtain ⟨hHost, hEntry, _⟩ := h.written_of_name hFound hName
  have hContext := context_put width hFound hSignature state.functions state.insertion state.scope
  have hGet := fun key => state.assembly.get?_put id key f'
  refine ⟨h.sorted.insert _ _, ?_, ?_, h.entry_eq, ?_, ?_, ?_, ?_⟩
  · intro key g hKey
    obtain ⟨g', hGet', _⟩ := Assembly.exists_of_get?_put hFound hSame hKey
    exact h.fresh key g' hGet'
  · rw [hGet, if_neg hHost.symm]
    exact h.host
  · obtain ⟨entry, plan, hGetEntry, hRest⟩ := h.entry
    refine ⟨entry, plan, ?_, ?_⟩
    · rw [hGet, if_neg hEntry.symm]
      exact hGetEntry
    · rw [hContext]
      exact hRest
  · intro key g hKey hKeyHost hKeyEntry
    rw [hContext]
    rw [hGet] at hKey
    split at hKey
    · cases hKey
      exact hWritten
    · exact h.written key g hKey hKeyHost hKeyEntry
  · intro key other g g' hKey hOther hEq
    obtain ⟨_, hKey', hKeyName⟩ := Assembly.exists_of_get?_put hFound hSame hKey
    obtain ⟨_, hOther', hOtherName⟩ := Assembly.exists_of_get?_put hFound hSame hOther
    exact h.unique _ _ _ _ hKey' hOther' (hKeyName.trans (hEq.trans hOtherName.symm))
  · intro name key hKey
    obtain ⟨hNotEntry, g, hGetKey, hKeyName⟩ := h.table name key hKey
    refine ⟨hNotEntry, ?_⟩
    rw [hGet]
    split
    · rename_i hEq
      rw [hEq, hFound] at hGetKey
      cases hGetKey
      exact ⟨f', rfl, by rwa [hSame]⟩
    · exact ⟨g, hGetKey, hKeyName⟩

/-- A new function of a new name. -/
theorem declare {name : String} (hName : isReserved name = false)
    (hNew : ∀ id f, state.assembly.get? id = some f → f.name ≠ name) (arity : Nat) :
    ({ state with
      assembly := state.assembly.declare name (.ofArity arity) .external
      functions := state.functions.insert name state.assembly.next } : Lowering).Valid width := by
  have hGet := state.assembly.get?_declare name (.ofArity arity) .external
  have hNone := h.next_none
  have hOld : ∀ {key : FunctionId} {g : Function}, state.assembly.get? key = some g →
      (state.assembly.declare name (.ofArity arity) .external).get? key = some g := by
    intro key g hKey
    rw [hGet, if_neg]
    · exact hKey
    · rintro rfl
      rw [hNone] at hKey
      cases hKey
  have hContext : ∀ callee signature, (state.context width).signature? callee = some signature →
      (state.assembly.declare name (.ofArity arity) .external).module.signature? callee =
        some signature := by
    intro callee signature hCallee
    obtain ⟨g, hGetCallee, hEq⟩ := Option.map_eq_some_iff.mp hCallee
    rw [Assembly.signature?_eq, hOld hGetCallee, ← hEq]
    rfl
  have hSame : ∀ f : Function, f.SameCallees (state.context width) (context width
      ⟨state.assembly.declare name (.ofArity arity) .external,
        state.functions.insert name state.assembly.next, state.entry, state.insertion, state.scope⟩) :=
    fun f => .of_extends hContext
  have hNext : ∀ {key : FunctionId} {g : Function}, state.assembly.get? key = some g →
      key ≠ state.assembly.next := by
    rintro _ _ hKey rfl
    rw [hNone] at hKey
    cases hKey
  refine ⟨h.sorted.insert _ _, ?_, hOld h.host, h.entry_eq, ?_, ?_, ?_, ?_⟩
  · intro key g hKey
    rw [hGet] at hKey
    split at hKey
    · rename_i hEq
      rw [hEq]
      exact Nat.lt_succ_self _
    · exact Nat.lt_succ_of_lt (h.fresh key g hKey)
  · obtain ⟨entry, plan, hGetEntry, hEntryName, hLinkage, hSignature, hReady, hFrontier⟩ := h.entry
    exact ⟨entry, plan, hOld hGetEntry, hEntryName, hLinkage, hSignature,
      hReady.transfer (hSame _) (Nat.le_refl _), hFrontier⟩
  · intro key g hKey hKeyHost hKeyEntry
    rw [hGet] at hKey
    split at hKey
    · cases hKey
      exact ⟨hName, rfl, by simp [Function.bare, Signature.ofArity], .inl rfl⟩
    · exact (h.written key g hKey hKeyHost hKeyEntry).transfer (hSame g) (Nat.le_refl _)
  · intro key other g g' hKey hOther hEq
    rw [hGet] at hKey hOther
    split at hKey <;> split at hOther
    · rename_i hFirst hSecond
      rw [hFirst, hSecond]
    · cases hKey
      exact absurd hEq.symm (hNew other g' hOther)
    · cases hOther
      exact absurd hEq (hNew key g hKey)
    · exact h.unique _ _ _ _ hKey hOther hEq
  · intro other key hKey
    rw [NameTable.find?_insert] at hKey
    split at hKey
    · rename_i hEq
      cases hKey
      refine ⟨?_, _, (hGet _).trans (if_pos rfl), .inl hEq.symm⟩
      obtain ⟨entry, _, hGetEntry, _⟩ := h.entry
      exact (hNext hGetEntry).symm
    · obtain ⟨hNotEntry, g, hGetKey, hKeyName⟩ := h.table other key hKey
      exact ⟨hNotEntry, g, hOld hGetKey, hKeyName⟩

/-- A function that nothing calls is deleted with its name. -/
theorem erase {id : FunctionId} {f : Function} (hFound : state.assembly.get? id = some f)
    (hName : isReserved f.name = false)
    (hFree : state.assembly.module.isReferenced id = false) :
    ({ state with
      assembly := { state.assembly with module := { state.assembly.module with
        functions := state.assembly.module.functions.erase id } }
      functions := state.functions.erase f.name } : Lowering).Valid width := by
  obtain ⟨hHost, hEntry, _⟩ := h.written_of_name hFound hName
  have hGet := fun key => state.assembly.module.functions.get?_erase id key
  have hOld : ∀ {key : FunctionId} {g : Function},
      (state.assembly.module.functions.erase id).get? key = some g →
      key ≠ id ∧ state.assembly.get? key = some g := by
    intro key g hKey
    rw [hGet] at hKey
    split at hKey
    · cases hKey
    · rename_i hNe
      exact ⟨hNe, hKey⟩
  have hKept : ∀ {key : FunctionId}, key ≠ id →
      (state.assembly.module.functions.erase id).get? key = state.assembly.get? key := by
    intro key hNe
    rw [hGet, if_neg hNe]
    rfl
  have hSame : ∀ {key : FunctionId} {g : Function}, state.assembly.get? key = some g →
      g.SameCallees (state.context width) (context width
        ⟨{ state.assembly with module := { state.assembly.module with
          functions := state.assembly.module.functions.erase id } },
          state.functions.erase f.name, state.entry, state.insertion, state.scope⟩) := by
    intro key g hKey block callee arguments destination hMem signature hSignature
    have hNe : callee ≠ id := by
      rintro rfl
      have hValue : g ∈ state.assembly.module.functions.values :=
        (h.sorted.mem_values_iff g).mpr ⟨key, hKey⟩
      have hAny := List.any_eq_false.mp hFree g hValue
      rw [Bool.not_eq_true] at hAny
      have hCalls := List.any_eq_false.mp hAny _ (Function.mem_code_of_mem_bodyAt hMem)
      exact hCalls (by simp [Instruction.calls])
    change ((state.assembly.module.functions.erase id).get? callee).map Function.signature = _
    rw [hKept hNe]
    exact hSignature
  refine ⟨h.sorted.erase id, ?_, ?_, h.entry_eq, ?_, ?_, ?_, ?_⟩
  · exact fun key g hKey => h.fresh key g (hOld hKey).2
  · exact (hKept hHost.symm).trans h.host
  · obtain ⟨entry, plan, hGetEntry, hEntryName, hLinkage, hSignature, hReady, hFrontier⟩ := h.entry
    exact ⟨entry, plan, (hKept hEntry.symm).trans hGetEntry, hEntryName, hLinkage, hSignature,
      hReady.transfer (hSame hGetEntry) (Nat.le_refl _), hFrontier⟩
  · intro key g hKey hKeyHost hKeyEntry
    have hGetKey := (hOld hKey).2
    exact (h.written key g hGetKey hKeyHost hKeyEntry).transfer (hSame hGetKey) (Nat.le_refl _)
  · exact fun key other g g' hKey hOther => h.unique _ _ _ _ (hOld hKey).2 (hOld hOther).2
  · intro other key hKey
    rw [NameTable.find?_erase] at hKey
    split at hKey
    · cases hKey
    · rename_i hNe
      obtain ⟨hNotEntry, g, hGetKey, hKeyName⟩ := h.table other key hKey
      refine ⟨hNotEntry, g, (hKept ?_).trans hGetKey, hKeyName⟩
      rintro rfl
      rw [hFound] at hGetKey
      cases hGetKey
      rcases hKeyName with hEq | hReserved
      · exact hNe hEq.symm
      · exact hHost hReserved.2

/-- The entry function goes on. -/
theorem putEntry {f f' : Function} {plan' : Plan} {insertion : BlockId} {scope : NameTable SlotId}
    (hFound : state.assembly.get? state.entry = some f) (hGrows : f.Grows f')
    (hReady : (⟨⟨f', insertion⟩, scope, []⟩ : Body).Ready (state.context width) plan')
    (hFrontier : plan'.frontier = {insertion}) :
    (⟨state.assembly.put state.entry f', state.functions, state.entry, insertion, scope⟩ :
      Lowering).Valid width := by
  have hContext := context_put width hFound hGrows.signature state.functions insertion scope
  have hGet := fun key => state.assembly.get?_put state.entry key f'
  have hHost : (⟨0⟩ : FunctionId) ≠ state.entry := by
    rw [h.entry_eq]
    decide
  refine ⟨h.sorted.insert _ _, ?_, ?_, h.entry_eq, ?_, ?_, ?_, ?_⟩
  · intro key g hKey
    obtain ⟨g', hGet', _⟩ := Assembly.exists_of_get?_put hFound hGrows.name hKey
    exact h.fresh key g' hGet'
  · rw [hGet, if_neg hHost]
    exact h.host
  · obtain ⟨entry, plan, hGetEntry, hEntryName, hLinkage, hSignature, _⟩ := h.entry
    rw [hFound] at hGetEntry
    cases hGetEntry
    refine ⟨f', plan', (hGet _).trans (if_pos rfl), hGrows.name.trans hEntryName,
      hGrows.linkage.trans hLinkage, hGrows.signature.trans hSignature, ?_, hFrontier⟩
    rw [hContext]
    exact hReady
  · intro key g hKey hKeyHost hKeyEntry
    rw [hContext]
    rw [hGet, if_neg hKeyEntry] at hKey
    exact h.written key g hKey hKeyHost hKeyEntry
  · intro key other g g' hKey hOther hEq
    obtain ⟨_, hKey', hKeyName⟩ := Assembly.exists_of_get?_put hFound hGrows.name hKey
    obtain ⟨_, hOther', hOtherName⟩ := Assembly.exists_of_get?_put hFound hGrows.name hOther
    exact h.unique _ _ _ _ hKey' hOther' (hKeyName.trans (hEq.trans hOtherName.symm))
  · intro name key hKey
    obtain ⟨hNotEntry, g, hGetKey, hKeyName⟩ := h.table name key hKey
    exact ⟨hNotEntry, g, (hGet key).trans ((if_neg hNotEntry).trans hGetKey), hKeyName⟩

/-- What a prototype that is accepted leaves behind. -/
theorem prototype {head : Prototype} {id : FunctionId} {declared : Lowering} {events : List Event}
    (hOk : state.prototype head = .ok (id, declared, events)) :
    declared.Valid width ∧ isReserved head.name.text = false ∧
      declared.assembly.get? id =
        some (.bare head.name.text (.ofArity head.parameters.length) .external) := by
  rw [Lowering.prototype] at hOk
  by_cases hReserved : isReserved head.name.text = true
  · simp only [hReserved, if_true] at hOk
    cases hOk
  · rw [Bool.not_eq_true] at hReserved
    simp only [hReserved, Bool.false_eq_true, if_false] at hOk
    split at hOk
    · cases hOk
    · split at hOk
      · rename_i found f hFound
        obtain ⟨found', hDeclared, hFound⟩ := Option.bind_eq_some_iff.mp hFound
        obtain ⟨f', hGet, hEq⟩ := Option.map_eq_some_iff.mp hFound
        cases hEq
        obtain ⟨g, hGet', hName⟩ := h.declared?_eq_some hReserved hDeclared
        rw [hGet] at hGet'
        cases hGet'
        have hReserved' : isReserved f.name = false := by
          rw [hName]
          exact hReserved
        split at hOk
        · cases hOk
        · rename_i hBody
          split at hOk
          · cases hOk
          · rename_i hArity
            cases hOk
            have hDeclaration : f.isDeclaration = true := by simpa using hBody
            have hBare := (h.written_of_name hGet hReserved').2.2.eq_bare hDeclaration
            refine ⟨?_, hReserved, ?_⟩
            · rw [← hName]
              exact h.bind hGet hReserved'
            · have hSignature := (h.written_of_name hGet hReserved').2.2.signature
              rw [hSignature, Signature.ofArity, List.length_replicate, not_not] at hArity
              rw [hName, hArity] at hBare
              rw [← hBare]
              exact hGet
      · rename_i hNone
        cases hOk
        have hDeclared : state.declared? head.name.text = none := by
          cases hDeclared : state.declared? head.name.text with
          | none => rfl
          | some found =>
            obtain ⟨f, hGet, _⟩ := h.declared?_eq_some hReserved hDeclared
            rw [hDeclared, Option.bind_some, hGet] at hNone
            cases hNone
        refine ⟨h.declare hReserved (fun _ _ => h.declared?_eq_none hDeclared) _, hReserved, ?_⟩
        rw [Assembly.get?_declare, if_pos rfl]

/-- A bare function keeps its declaration only if it is called. -/
theorem discard {id : FunctionId} {name : String} {arity : Nat}
    (hFound : state.assembly.get? id = some (.bare name (.ofArity arity) .external))
    (hName : isReserved name = false) :
    ({ state with
      assembly := state.assembly.discard id (.bare name (.ofArity arity) .external)
      functions := state.functions.erase name } : Lowering).Valid width := by
  have hWritten := (h.written_of_name hFound hName).2.2
  have hPut := h.put hFound hName rfl rfl hWritten
  have hGet := (state.assembly.get?_put id id (.bare name (.ofArity arity) .external)).trans (if_pos rfl)
  rw [Assembly.discard, Function.withoutBody_bare]
  by_cases hReferenced : (state.assembly.put id
      (.bare name (.ofArity arity) .external)).module.isReferenced id = true
  · rw [if_pos hReferenced]
    exact hPut.unbind name
  · rw [if_neg hReferenced]
    exact hPut.erase hGet hName (Bool.not_eq_true _ ▸ hReferenced)

/-- The three ways a definition can go: its prototype is rejected, its body has no value, or it is kept. -/
theorem definition_cases (head : Prototype) (e : Expr) :
    (∃ problem, state.prototype head = .error problem ∧
      state.definition head e = (state, [.diagnostic problem])) ∨
    ∃ id declared events, state.prototype head = .ok (id, declared, events) ∧
      ((∃ final, declared.lowerBody head e = (none, final) ∧ state.definition head e =
        ({ declared with
            assembly := declared.assembly.discard id
              (.bare head.name.text (.ofArity head.parameters.length) .external)
            functions := declared.functions.erase head.name.text },
          events ++ final.diagnostics.map .diagnostic ++
            [.diagnostic ⟨.malformedBody head.name.text, e.span⟩])) ∨
      ∃ value final, declared.lowerBody head e = (some value, final) ∧ state.definition head e =
        ({ declared with assembly := declared.assembly.put id final.draft.function },
          events ++ final.diagnostics.map .diagnostic ++ [.lowered head.name.text])) := by
  cases hOk : state.prototype head with
  | error problem =>
    left
    refine ⟨problem, rfl, ?_⟩
    rw [Lowering.definition, hOk]
  | ok result =>
    right
    obtain ⟨id, declared, events⟩ := result
    obtain ⟨-, -, hGet⟩ := h.prototype hOk
    refine ⟨id, declared, events, rfl, ?_⟩
    cases hFinal : declared.lowerBody head e with
    | mk value final =>
    cases value with
    | none => exact .inl ⟨final, rfl, definition_of_none hOk hGet hFinal⟩
    | some value => exact .inr ⟨value, final, rfl, definition_of_some hOk hGet hFinal⟩

theorem definition (head : Prototype) {e : Expr} (hWidth : e.widest ≤ width) :
    (state.definition head e).1.Valid width := by
  rcases h.definition_cases head e with ⟨problem, -, hEq⟩ | ⟨id, declared, events, hOk, hCases⟩
  · rw [hEq]
    exact h
  · obtain ⟨hDeclared, hReserved, hGet⟩ := h.prototype hOk
    rcases hCases with ⟨final, -, hEq⟩ | ⟨value, final, hFinal, hEq⟩
    · rw [hEq]
      exact hDeclared.discard hGet hReserved
    · rw [hEq]
      obtain ⟨hGrows, plan', hStaged, hFrontier⟩ :=
        definitionBody_opened (callees_agree width declared) _ _ _ hWidth hFinal
      refine hDeclared.put hGet hReserved hGrows.name hGrows.signature ⟨?_, hGrows.linkage, ?_, .inr ?_⟩
      · rw [hGrows.name]
        exact hReserved
      · rw [hGrows.signature, hGrows.parameters]
        exact ((hDeclared.written_of_name hGet hReserved).2.2).signature
      · refine ⟨Nat.lt_of_lt_of_le ?_ hGrows.blocks, plan', hStaged, hFrontier⟩
        exact (opened_ready (declared.context width) _ _).draft.size_pos

theorem topLevel {e : Expr} (hWidth : e.widest ≤ width) : (state.topLevel e).1.Valid width := by
  obtain ⟨f, plan, hGet, _, _, _, hReady, hFrontier⟩ := h.entry
  rw [Lowering.topLevel, hGet]
  obtain ⟨plan', hMoves, _⟩ := expression_leads (callees_agree width state) e hWidth plan _ hReady
  have hFrontier' := frontier_eq_singleton hMoves.flow hFrontier
  exact h.putEntry hGet hMoves.flow.extends_.grows ⟨hMoves.ready.draft, hMoves.ready.scope⟩ hFrontier'

theorem item {item : Item} (hWidth : item.widest ≤ width) : (state.item item).1.Valid width := by
  cases item with
  | declaration span head =>
    rw [Lowering.item]
    split
    · exact h
    · rename_i hOk
      exact (h.prototype hOk).1
  | definition span head e => exact h.definition head hWidth
  | expression e => exact h.topLevel hWidth

omit h in
/-- The run lemma: what one item preserves holds after a whole program. -/
theorem items (program : List Item) {state : Lowering} (h : state.Valid width)
    (hWidth : ∀ item ∈ program, item.widest ≤ width) : (state.items program).1.Valid width := by
  induction program generalizing state with
  | nil => exact h
  | cons first rest ih =>
    exact ih (h.item (hWidth first List.mem_cons_self))
      fun item hItem => hWidth item (List.mem_cons_of_mem _ hItem)

end Valid

/-- The entry function before anything is lowered. -/
def emptyEntry : Function :=
  (Function.bare entryName { parameters := [], result := .void } .internal).newBlock "entry"

theorem start_eq (module : String) : start module = {
    assembly := ⟨⟨module, ⟨[(⟨0⟩, hostFunction), (⟨1⟩, emptyEntry)]⟩⟩, ⟨2⟩⟩
    functions := NameTable.empty.insert "puts" ⟨0⟩
    entry := ⟨1⟩
    insertion := ⟨0⟩
    scope := .empty } :=
  rfl

theorem get?_start (module : String) (id : FunctionId) : (start module).assembly.get? id =
    if id = ⟨0⟩ then some hostFunction else if id = ⟨1⟩ then some emptyEntry else none := by
  rw [start_eq]
  change List.lookup id _ = _
  rw [lookup_cons_ite, lookup_cons_ite]
  rfl

theorem start_valid (width : Nat) (module : String) : (start module).Valid width := by
  have hGet := get?_start module
  have hHost : (start module).assembly.get? ⟨0⟩ = some hostFunction := (hGet _).trans (if_pos rfl)
  have hEntry : (start module).assembly.get? ⟨1⟩ = some emptyEntry :=
    (hGet _).trans ((if_neg (by decide)).trans (if_pos rfl))
  have hCases : ∀ {id : FunctionId} {f : Function}, (start module).assembly.get? id = some f →
      id = ⟨0⟩ ∧ f = hostFunction ∨ id = ⟨1⟩ ∧ f = emptyEntry := by
    intro id f hFound
    rw [hGet] at hFound
    split at hFound
    · rename_i hEq
      exact .inl ⟨hEq, (Option.some.inj hFound).symm⟩
    · split at hFound
      · rename_i hEq
        exact .inr ⟨hEq, (Option.some.inj hFound).symm⟩
      · cases hFound
  refine ⟨?_, ?_, hHost, rfl, ?_, ?_, ?_, ?_⟩
  · rw [start_eq]
    exact List.pairwise_pair.mpr Nat.one_pos
  · intro id f hFound
    rcases hCases hFound with ⟨rfl, _⟩ | ⟨rfl, _⟩
    · exact Nat.two_pos
    · exact Nat.one_lt_two
  · refine ⟨emptyEntry, Function.openPlan emptyEntry.parameters, hEntry, rfl, rfl, rfl, ⟨?_, ?_⟩, rfl⟩
    · exact Function.ready_open _ _ _ _ fun _ hTy => by cases hTy
    · intro name slot hSlot
      rw [start_eq, NameTable.find?_empty] at hSlot
      cases hSlot
  · intro id f hFound hNotHost hNotEntry
    rcases hCases hFound with ⟨rfl, _⟩ | ⟨rfl, _⟩
    · exact absurd rfl hNotHost
    · exact absurd rfl hNotEntry
  · intro id other f f' hFound hOther hEq
    rcases hCases hFound with ⟨rfl, rfl⟩ | ⟨rfl, rfl⟩ <;>
      rcases hCases hOther with ⟨rfl, rfl⟩ | ⟨rfl, rfl⟩
    · rfl
    · exact absurd hEq (by decide)
    · exact absurd hEq (by decide)
    · rfl
  · intro name id hFound
    rw [start_eq, NameTable.find?_insert, NameTable.find?_empty] at hFound
    split at hFound
    · rename_i hName
      cases hFound
      refine ⟨Id.ne_of_index_lt Nat.one_pos, hostFunction, hHost, .inr ⟨?_, rfl⟩⟩
      rw [hName]
      decide
    · cases hFound

end Lowering

/-- The module of a program: the host's function, the entry function, and those that it wrote. -/
structure Module.Lowered (width : Nat) (module : Module) : Prop where
  sorted : module.functions.Sorted
  host : module.get? ⟨0⟩ = some Lowering.hostFunction
  entry : ∃ f plan, module.get? ⟨1⟩ = some f ∧ f.name = entryName ∧ f.linkage = .internal ∧
    f.signature = { parameters := [], result := .void } ∧ 0 < f.blocks.size ∧
    f.Staged ⟨module.signature?, width⟩ plan ∧ plan.frontier = ∅
  written : ∀ id f, module.get? id = some f → id ≠ ⟨0⟩ → id ≠ ⟨1⟩ →
    f.Written ⟨module.signature?, width⟩
  unique : ∀ id other f f', module.get? id = some f → module.get? other = some f' →
    f.name = f'.name → id = other

/-- The most arguments that a call in a program is written with. -/
def widestItem (program : List Item) : Nat := (program.map Item.widest).foldr max 0

theorem widest_le_widestItem {program : List Item} {item : Item} (h : item ∈ program) :
    item.widest ≤ widestItem program := by
  induction program with
  | nil => cases h
  | cons first rest ih =>
    rw [widestItem, List.map_cons, List.foldr_cons]
    rcases List.mem_cons.mp h with rfl | h
    · exact Nat.le_max_left _ _
    · exact Nat.le_trans (ih h) (Nat.le_max_right _ _)

theorem Lowering.Valid.finish {width : Nat} {state : Lowering} (h : state.Valid width) :
    state.finish.Lowered width := by
  obtain ⟨f, plan, hGet, hName, hLinkage, hSignature, hReady, hFrontier⟩ := h.entry
  have hStaged := hReady.draft.ret none (fun _ hEq => by cases hEq) fun _ => by rw [hSignature]
  rw [Function.add_eq_append _ _ rfl] at hStaged
  have hContext : state.finish.signature? = (state.context width).signature? := by
    rw [Lowering.finish, hGet]
    exact Assembly.signature?_put hGet rfl
  have hPut : ∀ key, state.finish.get? key =
      (state.assembly.put state.entry (f.append state.insertion (.ret none))).get? key := by
    intro key
    rw [Lowering.finish, hGet]
    rfl
  have hFinish := fun key => (hPut key).trans (Assembly.get?_put _ _ _ _)
  refine ⟨?_, ?_, ?_, ?_, ?_⟩
  · rw [Lowering.finish, hGet]
    exact h.sorted.insert _ _
  · rw [hFinish, if_neg]
    · exact h.host
    · rw [h.entry_eq]
      decide
  · refine ⟨f.append state.insertion (.ret none), plan.close state.insertion, ?_, hName, hLinkage,
      hSignature, ?_, ?_, ?_⟩
    · rw [hFinish, if_pos h.entry_eq.symm]
    · exact Nat.lt_of_lt_of_eq hReady.draft.size_pos (Table.size_modify _ _ _).symm
    · rw [hContext]
      exact hStaged
    · rw [Plan.close, hFrontier]
      exact Set.sdiff_self
  · intro key g hKey hHost hEntry
    rw [← h.entry_eq] at hEntry
    rw [hFinish, if_neg hEntry] at hKey
    rw [hContext]
    exact h.written key g hKey hHost hEntry
  · intro key other g g' hKey hOther hEq
    rw [hPut] at hKey hOther
    have hSame : (f.append state.insertion (.ret none)).name = f.name := rfl
    obtain ⟨_, hKey', hKeyName⟩ := Assembly.exists_of_get?_put hGet hSame hKey
    obtain ⟨_, hOther', hOtherName⟩ := Assembly.exists_of_get?_put hGet hSame hOther
    exact h.unique _ _ _ _ hKey' hOther' (hKeyName.trans (hEq.trans hOtherName.symm))

theorem lowerProgram_lowered (name : String) (program : List Item) :
    (lowerProgram name program).1.Lowered (widestItem program) :=
  (Lowering.Valid.items program (Lowering.start_valid _ name)
    fun _ hItem => widest_le_widestItem hItem).finish

end Slate
