import Slate.Lowering
import Slate.Proofs.Lowering.Expression

/-! # Lowering definitions

A definition starts from a bare declaration with one empty block. Its parameters are stored in slots, its body
is lowered, and a value ends it with a return, after which no block is open.
-/

namespace Slate
set_option autoImplicit false

namespace Function

/-- A function without a body. -/
def bare (name : String) (signature : Signature) (linkage : Linkage) : Function where
  name := name
  signature := signature
  linkage := linkage
  registers := .ofList signature.parameters
  parameters := (List.range signature.parameters.length).map Id.mk

variable (name : String) (signature : Signature) (linkage : Linkage)

theorem get?_registers_bare (id : RegisterId) :
    (bare name signature linkage).registers.get? id = signature.parameters[id.index]? := by
  simp [bare, Table.get?, Table.ofList]

theorem size_registers_bare :
    (bare name signature linkage).registers.size = signature.parameters.length := by
  simp [bare, Table.size, Table.ofList]

theorem isDeclaration_bare : (bare name signature linkage).isDeclaration = true := rfl

theorem withoutBody_bare : (bare name signature linkage).withoutBody = bare name signature linkage := by
  simp [withoutBody, bare, Table.truncate, Table.ofList, Table.empty]

theorem bodyAt_bare (id : BlockId) : (bare name signature linkage).bodyAt id = [] :=
  bodyAt_of_size_le _ (Nat.zero_le _)

/-- The first block of a bare function, where only the parameters are written. -/
def openPlan (parameters : List RegisterId) : Plan where
  entering := fun id register => id = ⟨0⟩ ∧ register ∈ parameters
  frontier := {⟨0⟩}

theorem bodyAt_open (id : BlockId) :
    ((bare name signature linkage).newBlock "entry").bodyAt id = [] := by
  rw [bodyAt_newBlock, bodyAt_bare]

theorem successorsAt_open (id : BlockId) :
    ((bare name signature linkage).newBlock "entry").successorsAt id = [] := by
  rw [successorsAt, bodyAt_open, List.flatMap_nil]

theorem predecessorsAt_open (id : BlockId) :
    ((bare name signature linkage).newBlock "entry").predecessorsAt id = .empty := by
  rw [predecessorsAt_newBlock, predecessorsAt_of_size_le _ (Nat.zero_le _)]

theorem framed_open (hParameters : ∀ ty ∈ signature.parameters, ty = .i32) :
    ((bare name signature linkage).newBlock "entry").Framed := by
  have hTypes : ∀ id ty, (bare name signature linkage).registers.get? id = some ty → ty = .i32 := by
    intro id ty hTy
    rw [get?_registers_bare] at hTy
    exact hParameters ty (List.mem_of_getElem? hTy)
  refine ⟨?_, ?_, ?_, ?_, ?_, ?_, ?_⟩
  · intro id
    rw [codeAt_newBlock, codeAt_of_size_le _ (Nat.zero_le _), bodyAt_open, prologueAt]
    split <;> rfl
  · intro id instruction hMem
    rw [bodyAt_open] at hMem
    cases hMem
  · intro id row hRow
    exact absurd hRow (by simp [newBlock, bare])
  · intro id ty hTy hVoid
    rw [hTypes id ty hTy] at hVoid
    cases hVoid
  · simp [newBlock, bare]
  · intro id hId
    obtain ⟨n, hn, rfl⟩ := List.mem_map.mp hId
    have hLess : (⟨n⟩ : RegisterId).index < (bare name signature linkage).registers.size := by
      rw [size_registers_bare]
      exact List.mem_range.mp hn
    obtain ⟨ty, hTy⟩ := Table.exists_of_lt hLess
    change (bare name signature linkage).registers.get? ⟨n⟩ = _
    rw [hTy, hTypes _ ty hTy]
  · simp [newBlock, bare]

theorem sound_open (signature? : FunctionId → Option Signature)
    (hParameters : ∀ ty ∈ signature.parameters, ty = .i32) :
    ((bare name signature linkage).newBlock "entry").Sound signature?
      (openPlan (bare name signature linkage).parameters).entering := by
  have hBody := bodyAt_open name signature linkage
  have hSuccessors := successorsAt_open name signature linkage
  have hPredecessors := predecessorsAt_open name signature linkage
  have hDefines : ∀ id, ((bare name signature linkage).newBlock "entry").definesAt id = [] := by
    intro id
    rw [definesAt, hBody, List.filterMap_nil]
  refine ⟨framed_open name signature linkage hParameters, ?_, ?_, ?_⟩
  · constructor
    case sorted =>
      intro id
      rw [hPredecessors]
      exact IdSet.sorted_empty
    all_goals simp [hBody, hSuccessors, hPredecessors, Instruction.PhisFirst]
  · constructor
    case total =>
      intro register hLow hHigh
      have hHigh' : register.index < (bare name signature linkage).registers.size := hHigh
      have hLow' : (bare name signature linkage).parameters.length ≤ register.index := hLow
      rw [size_registers_bare] at hHigh'
      rw [bare, List.length_map, List.length_range] at hLow'
      exact absurd hHigh' (Nat.not_lt.mpr hLow')
    all_goals simp [hDefines]
  · constructor
    case start => exact fun register hRegister => hRegister.2
    all_goals simp [hBody, hSuccessors, Instruction.ReadsOnly]

theorem ready_open (context : Context) (hParameters : ∀ ty ∈ signature.parameters, ty = .i32) :
    (⟨(bare name signature linkage).newBlock "entry", ⟨0⟩⟩ : Draft).Ready context
      (openPlan (bare name signature linkage).parameters) := by
  have hBody := bodyAt_open name signature linkage
  have hSize : ((bare name signature linkage).newBlock "entry").blocks.size = 1 := Table.size_push _ _
  refine ⟨⟨sound_open name signature linkage context.signature? hParameters, ?_, ?_, ?_, ?_⟩, rfl⟩
  · rintro id rfl
    rw [hSize]
    exact Nat.one_pos
  · intro id _ instruction hMem
    rw [hBody] at hMem
    cases hMem
  · intro id hLess hClosed
    rw [hSize] at hLess
    exact absurd ((Id.eq_iff _ _).mpr (Nat.lt_one_iff.mp hLess)) hClosed
  · intro id instruction hMem
    rw [hBody] at hMem
    cases hMem

end Function

namespace Lowering

open Draft (Usable Flow)

variable {context : Context} {plan : Plan} {body : Body}

/-- A parameter stored in a slot of its name. -/
def Body.bind (body : Body) (name : String) (register : RegisterId) : Body :=
  ⟨⟨(body.draft.function.newSlot ⟨0⟩ { ty := .i32, name }).append body.draft.block
    (.store body.draft.function.slots.nextId (.register register)), body.draft.block⟩,
    body.scope.insert name body.draft.function.slots.nextId, body.diagnostics⟩

theorem bindParameters_cons (name : Name) (register : RegisterId) (rest : List (Name × RegisterId))
    (body : Body) : bindParameters ((name, register) :: rest) body =
      bindParameters rest (body.bind name.text register) :=
  rfl

theorem bind_spec (h : body.Ready context plan) (name : String) {register : RegisterId}
    (hUsable : Usable plan body.draft (.register register) .i32) :
    (body.bind name register).Ready context plan ∧
      Flow plan body.draft plan (body.bind name register).draft := by
  obtain ⟨hSlotReady, hSlotFlow⟩ := h.draft.newSlot name
  have hSlot : (body.withFunction (body.draft.function.newSlot ⟨0⟩ { ty := .i32, name })).Ready
      context plan := h.withFunction hSlotReady hSlotFlow.extends_.grows
  have hRow := (Table.get?_push body.draft.function.slots { ty := .i32, name }
    body.draft.function.slots.nextId).trans (if_pos rfl)
  have hStays := store_stays hSlot hRow rfl (hUsable.flow hSlotFlow)
  refine ⟨⟨hStays.ready.draft, ?_⟩, hSlotFlow.trans h.draft hStays.flow⟩
  intro other slot hFound
  rw [Body.bind, NameTable.find?_insert] at hFound
  split at hFound
  · rename_i hEq
    cases hFound
    rw [hEq]
    exact hStays.flow.extends_.grows.slots _ _ hRow
  · exact hStays.ready.scope other slot hFound

theorem bindParameters_spec (parameters : List (Name × RegisterId)) (h : body.Ready context plan)
    (hUsable : ∀ entry ∈ parameters, Usable plan body.draft (.register entry.2) .i32) :
    let body' := (bindParameters parameters body).2
    body'.Ready context plan ∧ Flow plan body.draft plan body'.draft ∧
      body'.diagnostics = body.diagnostics := by
  induction parameters generalizing body with
  | nil => exact ⟨h, .refl h.draft, rfl⟩
  | cons first rest ih =>
    obtain ⟨name, register⟩ := first
    rw [bindParameters_cons]
    obtain ⟨hReady, hFlow⟩ := bind_spec h name.text (hUsable (name, register) List.mem_cons_self)
    obtain ⟨hReady', hFlow', hDiagnostics⟩ := ih hReady fun entry hEntry =>
      (hUsable entry (List.mem_cons_of_mem _ hEntry)).flow hFlow
    exact ⟨hReady', hFlow.trans h.draft hFlow', hDiagnostics⟩

/-- A flow from the only open block leads to the only open block. -/
theorem frontier_eq_singleton {plan' : Plan} {d d' : Draft} (hFlow : Flow plan d plan' d')
    (hFrontier : plan.frontier = {d.block}) : plan'.frontier = {d'.block} := by
  ext id
  rw [hFlow.frontier, hFrontier, Set.mem_singleton_iff, Set.mem_singleton_iff]
  refine ⟨?_, .inl⟩
  rintro (hEq | ⟨hEq, hNe⟩)
  · exact hEq
  · exact absurd hEq hNe

section DefinitionBody

variable (callees : Callees) (parameters : List (Name × RegisterId)) (e : Expr) (body : Body)

theorem definitionBody_of_none
    (h : (expression callees e (bindParameters parameters body).2).1 = none) :
    definitionBody callees parameters e body =
      (none, (expression callees e (bindParameters parameters body).2).2) := by
  rcases hBound : bindParameters parameters body with ⟨_, bound⟩
  rw [hBound] at h
  rcases hResult : expression callees e bound with ⟨_, after⟩
  simp only [hResult] at h ⊢
  cases h
  simp only [definitionBody, bind, StateT.bind, hBound, hResult]
  rfl

theorem definitionBody_of_some {value : Operand}
    (h : (expression callees e (bindParameters parameters body).2).1 = some value) :
    let result := toWord value (expression callees e (bindParameters parameters body).2).2
    definitionBody callees parameters e body = (some result.1, result.2.withFunction
      (result.2.draft.function.add result.2.draft.block (.ret (some result.1)))) := by
  rcases hBound : bindParameters parameters body with ⟨_, bound⟩
  rw [hBound] at h
  rcases hResult : expression callees e bound with ⟨_, after⟩
  simp only [hResult] at h ⊢
  cases h
  simp only [definitionBody, bind, StateT.bind, hBound, hResult]
  rfl

end DefinitionBody

/-- The lowered body of a definition. -/
theorem definitionBody_spec {callees : Callees} (hCallees : callees.Agree context)
    (h : body.Ready context plan) (hFrontier : plan.frontier = {body.draft.block})
    (hResult : body.draft.function.signature.result = .i32) {parameters : List (Name × RegisterId)}
    (hUsable : ∀ entry ∈ parameters, Usable plan body.draft (.register entry.2) .i32) {e : Expr}
    (hWidth : e.widest ≤ context.width) {value : Operand}
    (hValue : (definitionBody callees parameters e body).1 = some value) :
    let final := (definitionBody callees parameters e body).2.draft.function
    body.draft.function.Grows final ∧ ∃ plan', final.Staged context plan' ∧ plan'.frontier = ∅ := by
  obtain ⟨hBound, hBoundFlow, -⟩ := bindParameters_spec parameters h hUsable
  obtain ⟨plan₁, hMoves, hLowered⟩ := expression_leads hCallees e hWidth plan _ hBound
  cases hEq : (expression callees e (bindParameters parameters body).2).1 with
  | none =>
    rw [definitionBody_of_none _ _ _ _ hEq] at hValue
    cases hValue
  | some operand =>
    obtain ⟨ty, hOperand⟩ := hLowered operand hEq
    rw [definitionBody_of_some _ _ _ _ hEq]
    obtain ⟨hStays, hWord⟩ := toWord_stays hMoves.ready hOperand
    have hFlow := (hBoundFlow.trans h.draft hMoves.flow).trans h.draft hStays.flow
    generalize toWord operand _ = result at hStays hWord hFlow
    intro final
    have hSignature : result.2.draft.function.signature.result = .i32 := by
      rw [hFlow.extends_.grows.signature]
      exact hResult
    have hStaged := hStays.ready.draft.ret (some result.1)
      (fun _ hEq => by rw [hSignature]; cases hEq; exact hWord) (fun hEq => by cases hEq)
    refine ⟨hFlow.extends_.grows.trans (Function.grows_add hStays.ready.draft.block_lt rfl), _, hStaged, ?_⟩
    rw [Plan.close, frontier_eq_singleton hFlow hFrontier]
    exact Set.sdiff_self

/-- A bare function with one empty block. -/
def opened (name : String) (arity : Nat) : Body where
  draft := ⟨(Function.bare name (.ofArity arity) .external).newBlock "entry", ⟨0⟩⟩

theorem opened_ready (context : Context) (name : String) (arity : Nat) :
    (opened name arity).Ready context
      (Function.openPlan (Function.bare name (.ofArity arity) .external).parameters) := by
  refine ⟨Function.ready_open name _ _ context fun ty hTy => List.eq_of_mem_replicate hTy, ?_⟩
  intro other slot hSlot
  rw [opened, NameTable.find?_empty] at hSlot
  cases hSlot

theorem opened_usable (name : String) (arity : Nat) (names : List Name) :
    ∀ entry ∈ names.zip (Function.bare name (.ofArity arity) .external).parameters,
      Usable (Function.openPlan (Function.bare name (.ofArity arity) .external).parameters)
        (opened name arity).draft (.register entry.2) .i32 := by
  rintro ⟨parameter, register⟩ hEntry
  have hMem := (List.of_mem_zip hEntry).2
  refine ⟨(Function.framed_open name _ _ fun ty hTy => List.eq_of_mem_replicate hTy).parameterTypes
    register hMem, fun id hId => ?_⟩
  cases hId
  exact .inl ⟨rfl, hMem⟩

/-- A definition with a value becomes a function without open blocks. -/
theorem definitionBody_opened {callees : Callees} (hCallees : callees.Agree context) (name : String)
    (arity : Nat) (names : List Name) {e : Expr} (hWidth : e.widest ≤ context.width) {value : Operand}
    {final : Body}
    (hFinal : definitionBody callees
      (names.zip (Function.bare name (.ofArity arity) .external).parameters) e (opened name arity) =
      (some value, final)) :
    (opened name arity).draft.function.Grows final.draft.function ∧
      ∃ plan', final.draft.function.Staged context plan' ∧ plan'.frontier = ∅ := by
  have hSpec := definitionBody_spec hCallees (opened_ready context name arity) rfl rfl
    (opened_usable name arity names) hWidth (congrArg Prod.fst hFinal)
  rw [hFinal] at hSpec
  exact hSpec

end Lowering
end Slate
