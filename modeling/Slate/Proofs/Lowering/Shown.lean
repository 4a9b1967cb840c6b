import Slate.Proofs.Lowering.Origins
import Slate.Proofs.Parser.Named
import Slate.Proofs.Render.Lines
import Slate.Proofs.Verified

/-! # What the text of a lowered module leaves out

The text of a function gives neither the table of its slots nor the types of most registers, and of the types
in its signature only the result. Lowering makes up for that: parameters are words, every other register is
written by an instruction that decides its type or is a phi, and every slot has its `alloca`. The names that
stand in the text are words of the program, so they cannot be taken for anything else.
-/

namespace Slate
set_option autoImplicit false

namespace Function

/-- What a function has beside its text follows from the text. -/
structure Explicit (f : Function) : Prop where
  signature : f.signature.parameters = List.replicate f.parameters.length .i32
  parameters : ∀ id ∈ f.parameters, f.registers.get? id = some .i32
  slots : ∀ id ty, f.slots.get? id = some ty → ∃ block, .alloca id ∈ f.codeAt block
  written : ∀ id ty, f.registers.get? id = some ty → id ∈ f.parameters ∨
    ∃ block, ∃ instruction ∈ f.codeAt block, instruction.destination? = some id
  results : ∀ block, ∀ instruction ∈ f.codeAt block, ∀ id ty, instruction.destination? = some id →
    instruction.resultType? = some ty → f.registers.get? id = some ty

def labelAt? (f : Function) (id : BlockId) : Option String := (f.blocks.get? id).map Block.label

variable (f : Function)

theorem labelAt?_newBlock (label : String) (id : BlockId) : (f.newBlock label).labelAt? id =
    if id = f.blocks.nextId then some label else f.labelAt? id := by
  rw [labelAt?, newBlock, Table.get?_push]
  split <;> rfl

theorem labelAt?_newSlot (at_ : BlockId) (slot : Slot) (id : BlockId) :
    (f.newSlot at_ slot).labelAt? id = f.labelAt? id :=
  Table.map_get?_modify _ _ _ fun _ => rfl

theorem labelAt?_addEdges (source : BlockId) (targets : List BlockId) (id : BlockId) :
    (f.addEdges source targets).labelAt? id = f.labelAt? id := by
  induction targets generalizing f with
  | nil => rfl
  | cons first rest ih =>
    rw [addEdges_cons, ih]
    exact Table.map_get?_modify _ _ _ fun _ => rfl

theorem labelAt?_append (at_ : BlockId) (instruction : Instruction) (id : BlockId) :
    (f.append at_ instruction).labelAt? id = f.labelAt? id :=
  Table.map_get?_modify _ _ _ fun _ => rfl

theorem labelAt?_add (at_ : BlockId) (instruction : Instruction) (id : BlockId) :
    (f.add at_ instruction).labelAt? id = f.labelAt? id := by
  change ((f.addEdges at_ instruction.targets).append at_ instruction).labelAt? id = _
  rw [labelAt?_append, labelAt?_addEdges]

variable {f}

theorem mem_codeAt_append {at_ id : BlockId} {instruction old : Instruction}
    (h : old ∈ (f.append at_ instruction).codeAt id) : old ∈ f.codeAt id ∨ old = instruction := by
  rw [codeAt, append, Table.get?_modify] at h
  rw [codeAt]
  split at h
  · cases hBlock : f.blocks.get? id with
    | none =>
      rw [hBlock] at h
      cases h
    | some block =>
      rw [hBlock] at h
      exact (List.mem_append.mp h).imp_right List.mem_singleton.mp
  · exact .inl h

theorem mem_codeAt_add {at_ id : BlockId} {instruction old : Instruction}
    (h : old ∈ (f.add at_ instruction).codeAt id) : old ∈ f.codeAt id ∨ old = instruction := by
  have hOld := mem_codeAt_append (f := f.addEdges at_ instruction.targets) h
  rwa [codeAt_addEdges] at hOld

theorem mem_codeAt_newSlot {at_ id : BlockId} {slot : Slot} {old : Instruction}
    (h : old ∈ (f.newSlot at_ slot).codeAt id) : old ∈ f.codeAt id ∨ old = .alloca f.slots.nextId := by
  rw [codeAt, newSlot, Table.get?_modify] at h
  rw [codeAt]
  split at h
  · cases hBlock : f.blocks.get? id with
    | none =>
      rw [hBlock] at h
      cases h
    | some block =>
      rw [hBlock] at h
      change old ∈ block.code.takeWhile _ ++ _ :: block.code.dropWhile _ at h
      change old ∈ block.code ∨ _
      rw [← block.code.takeWhile_append_dropWhile (p := Instruction.isAlloca)]
      simp only [List.mem_append, List.mem_cons] at h ⊢
      tauto
  · exact .inl h

end Function

/-! ## What edits keep -/

namespace Lowering

variable {allowed : String → Prop}

/-- Labels are known, variables have names that may be assigned, parameters are words, and what an instruction
writes has the type that it decides. -/
structure Shows (allowed : String → Prop) (f : Function) : Prop where
  labels : ∀ id label, f.labelAt? id = some label → label ∈ blockLabels
  slots : ∀ id row, f.slots.get? id = some row → allowed row.name
  parameters : ∀ ty ∈ f.signature.parameters, ty = .i32
  results : ∀ block, ∀ instruction ∈ f.codeAt block, ∀ id ty, instruction.destination? = some id →
    instruction.resultType? = some ty → f.registers.get? id = some ty

theorem Shows.open_ (name : String) {signature : Signature} (linkage : Linkage)
    (h : ∀ ty ∈ signature.parameters, ty = .i32) :
    Shows allowed ((Function.bare name signature linkage).newBlock "entry") where
  labels := by
    intro id label hLabel
    rw [Function.labelAt?_newBlock] at hLabel
    split at hLabel
    · cases hLabel
      decide
    · cases hLabel
  slots := by
    intro id row hRow
    cases hRow
  parameters := h
  results := by
    intro block instruction hMem
    rw [Function.codeAt_newBlock, Function.codeAt_of_size_le _ (Nat.zero_le _)] at hMem
    cases hMem

theorem Shows.newBlock {f : Function} (h : Shows allowed f) {label : String} (hLabel : label ∈ blockLabels) :
    Shows allowed (f.newBlock label) where
  labels := by
    intro id other hOther
    rw [Function.labelAt?_newBlock] at hOther
    split at hOther
    · cases hOther
      exact hLabel
    · exact h.labels id other hOther
  slots := h.slots
  parameters := h.parameters
  results := by
    intro block instruction hMem
    rw [Function.codeAt_newBlock] at hMem
    exact h.results block instruction hMem

theorem Shows.newSlot {f : Function} (h : Shows allowed f) {name : String} (hName : allowed name) :
    Shows allowed (f.newSlot ⟨0⟩ { ty := .i32, name }) where
  labels := by
    intro id label hLabel
    rw [Function.labelAt?_newSlot] at hLabel
    exact h.labels id label hLabel
  slots := by
    intro id row hRow
    change (f.slots.push _).get? id = _ at hRow
    rw [Table.get?_push] at hRow
    split at hRow
    · cases hRow
      exact hName
    · exact h.slots id row hRow
  parameters := h.parameters
  results := by
    intro block instruction hMem id ty hDestination
    rcases Function.mem_codeAt_newSlot hMem with hOld | rfl
    · exact h.results block instruction hOld id ty hDestination
    · cases hDestination

theorem Shows.add {f : Function} (h : Shows allowed f) (at_ : BlockId) {instruction : Instruction}
    (hResult : ∀ id ty, instruction.destination? = some id → instruction.resultType? = some ty →
      f.registers.get? id = some ty) : Shows allowed (f.add at_ instruction) where
  labels := by
    intro id label hLabel
    rw [Function.labelAt?_add] at hLabel
    exact h.labels id label hLabel
  slots := by
    rw [Function.slots_add]
    exact h.slots
  parameters := by
    rw [Function.signature_add]
    exact h.parameters
  results := by
    intro block other hMem
    rw [Function.registers_add]
    rcases Function.mem_codeAt_add hMem with hOld | rfl
    · exact h.results block other hOld
    · exact hResult

theorem Shows.newRegister {f : Function} (h : Shows allowed f) (ty : Ty) : Shows allowed (f.newRegister ty) where
  labels := h.labels
  slots := h.slots
  parameters := h.parameters
  results := by
    intro block instruction hMem id expected hDestination hType
    exact f.registers.grows_push ty _ _ (h.results block instruction hMem id expected hDestination hType)

theorem Edit.shows {before after : Function × Scope} (h : Edit allowed before after)
    (hBefore : Shows allowed before.1) : Shows allowed after.1 := by
  cases h with
  | block f scope known => exact hBefore.newBlock known
  | slot f scope allows fresh => exact hBefore.newSlot allows
  | plain f scope at_ destination alloca =>
    apply hBefore.add
    intro id ty hDestination
    rw [destination] at hDestination
    cases hDestination
  | result f scope at_ destination typed =>
    apply (hBefore.newRegister _).add
    intro id expected hDestination hType
    rw [destination] at hDestination
    cases hDestination
    rw [typed expected hType]
    exact (f.registers.get?_push expected _).trans (if_pos rfl)

theorem Edits.shows {before after : Function × Scope} (h : Edits allowed before after)
    (hBefore : Shows allowed before.1) : Shows allowed after.1 :=
  h.invariant (P := fun view => Shows allowed view.1) (fun _ _ => Edit.shows) hBefore

/-- Every body is made by edits of one empty block. -/
theorem lowerProgram_shows {module : String} {program : List Item}
    (hAllowed : ∀ item ∈ program, ∀ name ∈ item.targets, allowed name) {id : FunctionId} {f : Function}
    (hFound : (lowerProgram module program).1.get? id = some f) (hBody : f.isDeclaration = false) :
    Shows allowed f := by
  by_cases hEntry : id = ⟨1⟩
  · obtain ⟨g, hGet, hEdits⟩ := lowerProgram_entry module hAllowed
    rw [hEntry, hGet] at hFound
    cases hFound
    exact hEdits.shows (Shows.open_ _ _ fun _ hTy => by cases hTy)
  · obtain ⟨before, span, head, e, after, rfl, hLowers⟩ := lowerProgram_body hFound hBody hEntry
    have hWidth : ∀ item ∈ before, item.widest ≤ widestItem before := fun _ => widest_le_widestItem
    have hValid := Valid.items before (start_valid (widestItem before) module) hWidth
    obtain ⟨scope, hEdits⟩ := hLowers.edits hValid
      (hAllowed (.definition span head e) (List.mem_append_right _ List.mem_cons_self))
    exact hEdits.shows (Shows.open_ _ _ fun _ hTy => List.eq_of_mem_replicate hTy)

/-! ## Names of functions -/

/-- The module has its name, and the names of its functions are words. -/
structure Titled (module : String) (state : Lowering) : Prop where
  name : state.assembly.module.name = module
  functions : ∀ id f, state.assembly.get? id = some f → isName f.name = true

theorem name_discard (assembly : Assembly) (id : FunctionId) (f : Function) :
    (assembly.discard id f).module.name = assembly.module.name := by
  rw [Assembly.discard]
  split <;> rfl

variable {width : Nat} {module : String} {state : Lowering}

theorem Valid.name_prototype (h : state.Valid width) {head : Prototype} {id : FunctionId} {declared : Lowering}
    {events : List Event} (hOk : state.prototype head = .ok (id, declared, events)) :
    declared.assembly.module.name = state.assembly.module.name := by
  rcases h.accepted hOk with ⟨-, rfl, -⟩ | ⟨-, -, rfl, -⟩ <;> rfl

theorem Valid.name_definition (h : state.Valid width) (head : Prototype) (e : Expr) :
    (state.definition head e).1.assembly.module.name = state.assembly.module.name := by
  rcases h.definition_cases head e with ⟨problem, -, hEq⟩ | ⟨key, declared, events, hOk, hCases⟩
  · rw [hEq]
  · rw [← h.name_prototype hOk]
    rcases hCases with ⟨final, -, hEq⟩ | ⟨value, final, -, hEq⟩
    · rw [hEq]
      exact name_discard _ _ _
    · rw [hEq]
      rfl

theorem Titled.of_keepsOthers (h : state.Titled module) {head : Prototype} (hHead : head.named = true)
    {after : Lowering} (hKeeps : KeepsOthers head.name.text state after)
    (hName : after.assembly.module.name = state.assembly.module.name) : after.Titled module where
  name := hName.trans h.name
  functions := by
    intro id f hFound
    by_cases hEq : f.name = head.name.text
    · rw [Prototype.named, Bool.and_eq_true] at hHead
      rw [hEq]
      exact hHead.1
    · exact h.functions id f ((hKeeps.others id f hEq).mp hFound)

theorem Titled.item (h : state.Titled module) (hOrderly : state.Orderly width) {item : Item}
    (hWidth : item.widest ≤ width) (hNamed : item.named = true) : (state.item item).1.Titled module := by
  cases item with
  | declaration span head =>
    rw [Lowering.item]
    cases hOk : state.prototype head with
    | error problem => exact h
    | ok result =>
      exact h.of_keepsOthers hNamed (hOrderly.valid.prototype_keepsOthers hOk) (hOrderly.valid.name_prototype hOk)
  | definition span head e =>
    rw [Item.named, Bool.and_eq_true] at hNamed
    exact h.of_keepsOthers hNamed.1 (hOrderly.valid.definition_keepsOthers head hWidth)
      (hOrderly.valid.name_definition head e)
  | expression e =>
    have hKeeps := hOrderly.valid.topLevel_keepsDefined e
    have hAfter := hOrderly.item hWidth
    change (state.topLevel e).1.Titled module
    constructor
    · obtain ⟨f, -, hGet, -⟩ := hOrderly.valid.entry
      rw [Lowering.topLevel, hGet]
      exact h.name
    · intro id f hFound
      by_cases hId : id = state.entry
      · obtain ⟨g, -, hGet, hName, -⟩ := hAfter.orderly.valid.entry
        rw [hAfter.entry, ← hId] at hGet
        cases hGet.symm.trans hFound
        rw [hName]
        decide
      · rw [hKeeps.others id hId] at hFound
        exact h.functions id f hFound

theorem Titled.items (program : List Item) {state : Lowering} (h : state.Titled module)
    (hOrderly : state.Orderly width) (hWidth : ∀ item ∈ program, item.widest ≤ width)
    (hNamed : ∀ item ∈ program, item.named = true) : (state.items program).1.Titled module := by
  induction program generalizing state with
  | nil => exact h
  | cons first rest ih =>
    rw [List.forall_mem_cons] at hWidth hNamed
    exact ih (h.item hOrderly hWidth.1 hNamed.1) (hOrderly.item hWidth.1).orderly hWidth.2 hNamed.2

theorem start_titled (module : String) : (start module).Titled module := by
  constructor
  · rw [start_eq]
  · intro id f hFound
    rw [get?_start] at hFound
    split at hFound
    · cases hFound
      decide
    · split at hFound
      · cases hFound
        decide
      · cases hFound

end Lowering

/-! ## Finished modules -/

mutual

theorem Expr.named_targets : ∀ e : Expr, e.named = true → ∀ name ∈ e.targets, isName name = true
  | .int .., _ | .variable .., _ => by
    intro name hMem
    cases hMem
  | .binary _ _ lhs rhs, h | .compare _ _ lhs rhs, h => by
    rw [Expr.named, Bool.and_eq_true] at h
    exact List.forall_mem_append.mpr ⟨lhs.named_targets h.1, rhs.named_targets h.2⟩
  | .assign _ target value, h => by
    rw [Expr.named, Bool.and_eq_true] at h
    exact List.forall_mem_cons.mpr ⟨h.1, value.named_targets h.2⟩
  | .branch _ condition positive negative, h => by
    simp only [Expr.named, Bool.and_eq_true] at h
    simp only [Expr.targets, List.forall_mem_append]
    exact ⟨⟨condition.named_targets h.1.1, allNamed_allTargets positive h.1.2⟩,
      allNamed_allTargets negative h.2⟩
  | .loop _ initializer condition step body, h => by
    simp only [Expr.named, Bool.and_eq_true] at h
    simp only [Expr.targets, List.forall_mem_append]
    exact ⟨⟨⟨initializer.named_targets h.1.1.1, condition.named_targets h.1.1.2⟩,
      step.named_targets h.1.2⟩, allNamed_allTargets body h.2⟩
  | .call _ _ arguments, h => by
    rw [Expr.named, Bool.and_eq_true] at h
    exact allNamed_allTargets arguments h.2

theorem allNamed_allTargets :
    ∀ list : List Expr, allNamed list = true → ∀ name ∈ allTargets list, isName name = true
  | [], _ => by
    intro name hMem
    cases hMem
  | first :: rest, h => by
    rw [allNamed, Bool.and_eq_true] at h
    exact List.forall_mem_append.mpr ⟨first.named_targets h.1, allNamed_allTargets rest h.2⟩

end

theorem Item.named_targets {item : Item} (h : item.named = true) : ∀ name ∈ item.targets, isName name = true := by
  cases item with
  | declaration span head =>
    intro name hMem
    cases hMem
  | definition span head body =>
    rw [Item.named, Prototype.named, Bool.and_eq_true, Bool.and_eq_true, List.all_eq_true] at h
    exact List.forall_mem_append.mpr ⟨List.forall_mem_map.mpr h.1.2, body.named_targets h.2⟩
  | expression body => exact body.named_targets h

namespace Function

variable {context : Context} {plan : Plan} {f : Function} {allowed : String → Prop}

theorem Staged.explicit (h : f.Staged context plan) (hShows : Lowering.Shows allowed f) : f.Explicit where
  signature := by
    rw [h.sound.framed.arity]
    exact List.eq_replicate_of_mem hShows.parameters
  parameters := h.sound.framed.parameterTypes
  slots := by
    intro id row hRow
    have hPrologue : .alloca id ∈ f.prologueAt ⟨0⟩ :=
      List.mem_map.mpr ⟨id.index, List.mem_range.mpr (Table.lt_of_get? hRow), rfl⟩
    exact ⟨⟨0⟩, h.sound.framed.code ⟨0⟩ ▸ List.mem_append_left _ hPrologue⟩
  written := by
    intro id ty hTy
    by_cases hParameter : id.index < f.parameters.length
    · rw [h.sound.framed.parameters]
      exact .inl (List.mem_map.mpr ⟨id.index, List.mem_range.mpr hParameter, rfl⟩)
    · obtain ⟨block, hMem⟩ := h.sound.single.total id (Nat.not_lt.mp hParameter) (Table.lt_of_get? hTy)
      obtain ⟨instruction, hBody, hDestination⟩ := List.mem_filterMap.mp hMem
      exact .inr ⟨block, instruction, (List.dropWhile_suffix _).subset hBody, hDestination⟩
  results := hShows.results

theorem explicit_bare (name : String) {signature : Signature} (linkage : Linkage)
    (h : ∀ ty ∈ signature.parameters, ty = .i32) : (bare name signature linkage).Explicit where
  signature := by
    rw [bare, List.length_map, List.length_range]
    exact List.eq_replicate_of_mem h
  parameters := by
    intro id hMem
    obtain ⟨n, hn, rfl⟩ := List.mem_map.mp hMem
    rw [get?_registers_bare, List.getElem?_eq_getElem (List.mem_range.mp hn)]
    exact congrArg some (h _ (List.getElem_mem _))
  slots := by
    intro id row hRow
    cases hRow
  written := by
    intro id ty hTy
    have hLt := Table.lt_of_get? hTy
    rw [size_registers_bare] at hLt
    exact .inl (List.mem_map.mpr ⟨id.index, List.mem_range.mpr hLt, rfl⟩)
  results := by
    intro block instruction hMem
    rw [codeAt_of_size_le _ (Nat.zero_le _)] at hMem
    cases hMem

end Function

/-- Every function of a lowered module takes words. -/
theorem Module.Lowered.words {width : Nat} {module : Module} (h : module.Lowered width) {id : FunctionId}
    {f : Function} (hFound : module.get? id = some f) : ∀ ty ∈ f.signature.parameters, ty = .i32 := by
  by_cases hHost : id = ⟨0⟩
  · rw [hHost, h.host] at hFound
    cases hFound
    decide
  · by_cases hEntry : id = ⟨1⟩
    · obtain ⟨entry, -, hGet, -, -, hSignature, -⟩ := h.entry
      rw [hEntry, hGet] at hFound
      cases hFound
      rw [hSignature]
      decide
    · rw [(h.written id f hFound hHost hEntry).signature]
      exact fun _ hTy => List.eq_of_mem_replicate hTy

namespace Lowering

variable {module : String} {program : List Item}

theorem lowerProgram_explicit {id : FunctionId} {f : Function}
    (hFound : (lowerProgram module program).1.get? id = some f) : f.Explicit := by
  have hLowered := lowerProgram_lowered module program
  rcases hLowered.cases hFound with hBare | ⟨hSize, plan, hStaged, -⟩
  · rw [hBare]
    exact Function.explicit_bare _ _ (hLowered.words hFound)
  · have hBody : f.isDeclaration = false := f.isDeclaration_eq_false_iff.mpr hSize
    have hShows : Shows (fun _ => True) f := lowerProgram_shows (fun _ _ _ _ => trivial) hFound hBody
    exact hStaged.explicit hShows

theorem lowerProgram_name (module : String) (hNamed : ∀ item ∈ program, item.named = true) :
    (lowerProgram module program).1.name = module ∧
      ∀ id f, (lowerProgram module program).1.get? id = some f → isName f.name = true := by
  have hWidth : ∀ item ∈ program, item.widest ≤ widestItem program := fun _ => widest_le_widestItem
  have hStart := start_orderly (widestItem program) module
  have hTitled := (start_titled module).items program hStart hWidth hNamed
  have hItems := Valid.items program hStart.valid hWidth
  constructor
  · obtain ⟨f, -, hGet, -⟩ := hItems.entry
    change ((start module).items program).1.finish.name = module
    rw [Lowering.finish, hGet]
    exact hTitled.name
  · intro id f hFound
    by_cases hEntry : id = ⟨1⟩
    · obtain ⟨entry, -, hGet, hName, -⟩ := (lowerProgram_lowered module program).entry
      rw [hEntry, hGet] at hFound
      cases hFound
      rw [hName]
      decide
    · exact hTitled.functions id f ((hItems.get?_finish (hItems.entry_eq ▸ hEntry)).symm.trans hFound)

theorem solid_blockLabels : ∀ label ∈ blockLabels, Render.Solid label.toList := by decide

theorem lowerProgram_legible (hModule : '\n' ∉ module.toList) (hNamed : ∀ item ∈ program, item.named = true) :
    (lowerProgram module program).1.Legible := by
  have hLowered := lowerProgram_lowered module program
  obtain ⟨hName, hNames⟩ := lowerProgram_name module hNamed
  refine ⟨hName.symm ▸ hModule, ?_⟩
  intro f hMem
  obtain ⟨id, hFound⟩ := (hLowered.sorted.mem_values_iff f).mp hMem
  have hWord := Render.solid_name (hNames id f hFound)
  cases hBody : f.isDeclaration with
  | true =>
    rcases hLowered.cases hFound with hBare | ⟨hSize, -⟩
    · rw [hBare] at hWord ⊢
      exact ⟨hWord, (fun _ _ hRow => by cases hRow), (fun _ _ hRow => by cases hRow)⟩
    · exact absurd ((Table.isEmpty_iff _).mp hBody) (Nat.ne_of_gt hSize)
  | false =>
    have hShows := lowerProgram_shows (fun item hItem => Item.named_targets (hNamed item hItem)) hFound hBody
    refine ⟨hWord, fun slot row hRow => Render.solid_name (hShows.slots slot row hRow), ?_⟩
    intro block row hRow
    exact solid_blockLabels _ (hShows.labels block row.label (by rw [Function.labelAt?, hRow]; rfl))

end Lowering
end Slate
