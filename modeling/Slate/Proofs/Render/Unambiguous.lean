import Slate.Proofs.Lowering.Names
import Slate.Proofs.Lowering.Shown

/-! # Texts and modules

Two lowered modules have the same text exactly if one is the other with different ids of functions, in the
same order. The ids do not show: a call gives the name of its callee. All that the text leaves out
otherwise follows from what it says, as functions are explicit.
-/

namespace Slate
set_option autoImplicit false

/-! ## Renumbering -/

def Table.map {kind : IdKind} {α β : Type} (table : Table kind α) (change : α → β) : Table kind β :=
  ⟨table.rows.map change⟩

def Instruction.renumber (rename : FunctionId → FunctionId) : Instruction → Instruction
  | .call callee arguments destination => .call (rename callee) arguments destination
  | instruction => instruction

def Block.renumber (rename : FunctionId → FunctionId) (block : Block) : Block :=
  { block with code := block.code.map (Instruction.renumber rename) }

def Function.renumber (rename : FunctionId → FunctionId) (f : Function) : Function :=
  { f with blocks := f.blocks.map (Block.renumber rename) }

/-- The same functions under other ids, with the calls that lead to them. -/
def Module.renumber (rename : FunctionId → FunctionId) (module : Module) : Module where
  name := module.name
  functions := ⟨module.functions.entries.map fun entry => (rename entry.1, entry.2.renumber rename)⟩

/-- The order of the functions stays the same. -/
def Module.KeepsOrder (module : Module) (rename : FunctionId → FunctionId) : Prop :=
  ∀ a ∈ module.functions.keys, ∀ b ∈ module.functions.keys, a.index < b.index →
    (rename a).index < (rename b).index

namespace Table

variable {kind : IdKind} {α β : Type}

theorem get?_map (table : Table kind α) (change : α → β) (id : Id kind) :
    (table.map change).get? id = (table.get? id).map change := by
  simp [map, get?]

theorem entries_map (table : Table kind α) (change : α → β) :
    (table.map change).entries = table.entries.map fun entry => (entry.1, change entry.2) := by
  simp [map, entries, toList, List.zipIdx_map]

theorem isEmpty_map (table : Table kind α) (change : α → β) : (table.map change).isEmpty = table.isEmpty := by
  simp [map, isEmpty, Array.isEmpty]

end Table

/-! ## Functions that show the same -/

theorem forall₂_mem_left {α β : Type} {related : α → β → Prop} {list : List α} {list' : List β}
    (h : List.Forall₂ related list list') {a : α} (hMem : a ∈ list) : ∃ b ∈ list', related a b := by
  induction h with
  | nil => cases hMem
  | cons hFirst hRest ih =>
    rcases List.mem_cons.mp hMem with rfl | hMem
    · exact ⟨_, List.mem_cons_self, hFirst⟩
    · obtain ⟨b, hb, hRelated⟩ := ih hMem
      exact ⟨b, List.mem_cons_of_mem _ hb, hRelated⟩

theorem map_eq_of_forall₂ {α β : Type} {related : α → β → Prop} {list : List α} {list' : List β} {change : α → β}
    (h : List.Forall₂ related list list')
    (hChange : ∀ a ∈ list, ∀ b ∈ list', related a b → change a = b) : list' = list.map change := by
  induction h with
  | nil => rfl
  | cons hFirst hRest ih =>
    rw [List.map_cons, hChange _ List.mem_cons_self _ List.mem_cons_self hFirst, ← ih]
    intro a ha b hb
    exact hChange a (List.mem_cons_of_mem _ ha) b (List.mem_cons_of_mem _ hb)

theorem Instruction.isSome_resultType? : ∀ {i : Instruction} {id : RegisterId}, i.destination? = some id →
    i.isPhi = false → i.resultType?.isSome = true
  | .load .., _, _, _ | .arith .., _, _, _ | .compare .., _, _, _ | .extend .., _, _, _ | .call .., _, _, _ => rfl
  | .phi .., _, _, hPhi => by cases hPhi
  | .alloca .., _, h, _ | .store .., _, h, _ | .jump .., _, h, _ | .branch .., _, h, _ | .ret .., _, h, _ => by
    cases h

section Symmetry

variable {module module' : Module} {f f' : Function}

theorem Instruction.Matches.symm {i i' : Instruction} (h : i.Matches module module' f f' i') :
    i'.Matches module' module f' f i := by
  cases h with
  | alloca here there => exact .alloca there here
  | call arguments destination name => exact .call arguments destination name.symm
  | phi sources here there => exact .phi sources there here
  | same alloca call phi => exact .same alloca call phi

theorem Block.Matches.symm {entry entry' : BlockId × Block} (h : Block.Matches module module' f f' entry entry') :
    Block.Matches module' module f' f entry' entry :=
  ⟨h.id.symm, h.label.symm, h.predecessors.symm, (h.code.imp fun _ _ => Instruction.Matches.symm).flip⟩

theorem Function.Matches.symm (h : f.Matches module module' f') : f'.Matches module' module f :=
  ⟨h.name.symm, h.linkage.symm, h.result.symm, h.variadic.symm, h.parameters.symm,
    (h.blocks.imp fun _ _ => Block.Matches.symm).flip⟩

end Symmetry

namespace Function

variable {module module' : Module} {f f' : Function}

namespace Matches

variable (h : f.Matches module module' f')
include h

theorem exists_block {id : BlockId} {row : Block} (hRow : f.blocks.get? id = some row) :
    ∃ row', f'.blocks.get? id = some row' ∧ Block.Matches module module' f f' (id, row) (id, row') := by
  obtain ⟨⟨id', row'⟩, hMem, hMatches⟩ := forall₂_mem_left h.blocks ((f.blocks.mem_entries_iff id row).mpr hRow)
  obtain rfl : id = id' := hMatches.id
  exact ⟨row', (f'.blocks.mem_entries_iff id row').mp hMem, hMatches⟩

theorem exists_instruction {id : BlockId} {i : Instruction} (hMem : i ∈ f.codeAt id) :
    ∃ i' ∈ f'.codeAt id, i.Matches module module' f f' i' := by
  cases hRow : f.blocks.get? id with
  | none =>
    rw [codeAt, hRow] at hMem
    cases hMem
  | some row =>
    rw [f.codeAt_of_get? hRow] at hMem
    obtain ⟨row', hRow', hMatches⟩ := h.exists_block hRow
    rw [f'.codeAt_of_get? hRow']
    exact forall₂_mem_left hMatches.code hMem

theorem signature_eq (hExplicit : f.Explicit) (hExplicit' : f'.Explicit) : f.signature = f'.signature := by
  have hParameters : f.signature.parameters = f'.signature.parameters := by
    rw [hExplicit.signature, hExplicit'.signature, h.parameters]
  have hResult := h.result
  have hVariadic := h.variadic
  revert hParameters hResult hVariadic
  cases f.signature
  cases f'.signature
  rintro rfl rfl rfl
  rfl

/-- Every slot shows where it is reserved, with its type and name. -/
theorem grows_slots (hExplicit : f.Explicit) : f.slots.Grows f'.slots := by
  intro id row hRow
  obtain ⟨block, hMem⟩ := hExplicit.slots id row hRow
  obtain ⟨i', -, hMatches⟩ := h.exists_instruction hMem
  cases hMatches with
  | alloca here there => rwa [here.symm.trans hRow] at there
  | same alloca => cases alloca

/-- The type of every register shows, in the header, in a phi or in the kind of the instruction that writes
it. -/
theorem grows_registers (hExplicit : f.Explicit) (hExplicit' : f'.Explicit) :
    f.registers.Grows f'.registers := by
  intro id ty hTy
  rcases hExplicit.written id ty hTy with hParameter | ⟨block, i, hMem, hDestination⟩
  · cases (hExplicit.parameters id hParameter).symm.trans hTy
    exact hExplicit'.parameters id (h.parameters ▸ hParameter)
  · -- Whatever type the instruction decides, both functions have it.
    have hDecided : ∀ i', i' ∈ f'.codeAt block → i'.destination? = some id → i'.resultType? = i.resultType? →
        i.resultType?.isSome = true → f'.registers.get? id = some ty := by
      intro i' hMem' hDestination' hSame hSome
      obtain ⟨expected, hExpected⟩ := Option.isSome_iff_exists.mp hSome
      cases (hExplicit.results block i hMem id expected hDestination hExpected).symm.trans hTy
      exact hExplicit'.results block i' hMem' id ty hDestination' (hSame.trans hExpected)
    obtain ⟨i', hMem', hMatches⟩ := h.exists_instruction hMem
    cases hMatches with
    | alloca here there => cases hDestination
    | call arguments destination name => exact hDecided _ hMem' hDestination rfl rfl
    | phi sources here there =>
      cases hDestination
      rwa [here.symm.trans hTy] at there
    | same alloca call phi =>
      exact hDecided _ hMem' hDestination rfl (Instruction.isSome_resultType? hDestination phi)

end Matches

/-- Every call leads to a function of the module. -/
def CallsInto (module : Module) (f : Function) : Prop :=
  ∀ block callee arguments destination, .call callee arguments destination ∈ f.codeAt block →
    ∃ g, module.get? callee = some g

end Function

theorem Instruction.renumber_of_not_calls {i : Instruction} (h : ∀ id, i.calls id = false)
    (rename : FunctionId → FunctionId) : i.renumber rename = i := by
  cases i with
  | call callee arguments destination => exact absurd (h callee) (by simp [calls])
  | _ => rfl

section Calls

variable {module module' : Module} {f f' : Function} {rename : FunctionId → FunctionId}
  (hRename : ∀ id id' g g', module.get? id = some g → module'.get? id' = some g' → g.name = g'.name →
    rename id = id')
include hRename

theorem Instruction.Matches.renumber_eq {block : BlockId} (hCalls : f.CallsInto module)
    (hCalls' : f'.CallsInto module') {i i' : Instruction} (hMem : i ∈ f.codeAt block) (hMem' : i' ∈ f'.codeAt block)
    (h : i.Matches module module' f f' i') : i.renumber rename = i' := by
  cases h with
  | alloca here there => rfl
  | call arguments destination name =>
    obtain ⟨g, hGet⟩ := hCalls _ _ _ _ hMem
    obtain ⟨g', hGet'⟩ := hCalls' _ _ _ _ hMem'
    rw [Render.calleeName, Render.calleeName, hGet, hGet'] at name
    rw [renumber, hRename _ _ g g' hGet hGet' name]
  | phi sources here there => rfl
  | same alloca call phi => exact renumber_of_not_calls call rename

theorem Function.Matches.get?_blocks (h : f.Matches module module' f') (hCalls : f.CallsInto module)
    (hCalls' : f'.CallsInto module') {id : BlockId} {row : Block} (hRow : f.blocks.get? id = some row) :
    f'.blocks.get? id = some (row.renumber rename) := by
  obtain ⟨row', hRow', hMatches⟩ := h.exists_block hRow
  have hCode : row'.code = row.code.map (Instruction.renumber rename) := by
    refine map_eq_of_forall₂ hMatches.code fun i hMem i' hMem' hInstruction => ?_
    rw [← f.codeAt_of_get? hRow] at hMem
    rw [← f'.codeAt_of_get? hRow'] at hMem'
    exact hInstruction.renumber_eq hRename hCalls hCalls' hMem hMem'
  obtain ⟨label, code, predecessors⟩ := row
  obtain ⟨label', code', predecessors'⟩ := row'
  obtain rfl : label = label' := hMatches.label
  obtain rfl : predecessors = predecessors' := hMatches.predecessors
  obtain rfl : code' = _ := hCode
  exact hRow'

theorem Function.Matches.blocks_eq (h : f.Matches module module' f') (hCalls : f.CallsInto module)
    (hCalls' : f'.CallsInto module') : f.blocks.map (Block.renumber rename) = f'.blocks := by
  apply Table.ext_get?
  intro id
  rw [Table.get?_map]
  cases hRow : f.blocks.get? id with
  | some row => exact (h.get?_blocks hRename hCalls hCalls' hRow).symm
  | none =>
    cases hRow' : f'.blocks.get? id with
    | none => rfl
    | some row' =>
      obtain ⟨row, hOld, -⟩ := h.symm.exists_block hRow'
      cases hRow.symm.trans hOld

theorem Function.Matches.renumber_eq (h : f.Matches module module' f') (hExplicit : f.Explicit)
    (hExplicit' : f'.Explicit) (hCalls : f.CallsInto module) (hCalls' : f'.CallsInto module') :
    f.renumber rename = f' := by
  have hSlots : f.slots = f'.slots := (h.grows_slots hExplicit).antisymm (h.symm.grows_slots hExplicit')
  have hRegisters : f.registers = f'.registers :=
    (h.grows_registers hExplicit hExplicit').antisymm (h.symm.grows_registers hExplicit' hExplicit)
  have hSignature : f.signature = f'.signature := h.signature_eq hExplicit hExplicit'
  have hBlocks : f.blocks.map (Block.renumber rename) = f'.blocks := h.blocks_eq hRename hCalls hCalls'
  obtain ⟨name, signature, linkage, registers, parameters, slots, blocks⟩ := f
  obtain ⟨name', signature', linkage', registers', parameters', slots', blocks'⟩ := f'
  obtain rfl : name = name' := h.name
  obtain rfl : linkage = linkage' := h.linkage
  obtain rfl : parameters = parameters' := h.parameters
  subst hSlots hRegisters hSignature hBlocks
  rfl

end Calls

/-! ## Modules that show the same -/

namespace Module

variable {width width' : Nat} {module module' : Module}

/-- The id of the function of the same name in another module. -/
def namesake (module module' : Module) (id : FunctionId) : FunctionId :=
  ((module.get? id).bind fun f => module'.lookup? f.name).getD id

theorem namesake_eq (h' : module'.Lowered width') {id id' : FunctionId} {f f' : Function}
    (hGet : module.get? id = some f) (hGet' : module'.get? id' = some f') (hName : f.name = f'.name) :
    module.namesake module' id = id' := by
  rw [namesake, hGet, Option.bind_some, h'.lookup?_eq hGet' hName.symm]
  rfl

theorem Lowered.callsInto (h : module.Lowered width) {id : FunctionId} {f : Function}
    (hFound : module.get? id = some f) : f.CallsInto module := by
  intro block callee arguments destination hMem
  cases hRow : f.blocks.get? block with
  | none =>
    rw [Function.codeAt, hRow] at hMem
    cases hMem
  | some row =>
    rw [f.codeAt_of_get? hRow] at hMem
    rcases h.cases hFound with hBare | ⟨-, plan, hStaged, hFrontier⟩
    · rw [hBare] at hRow
      cases hRow
    · obtain ⟨signature, hSignature, -⟩ := ((hStaged.wellFormed hFrontier).fits block row hRow _ hMem).placed
      obtain ⟨g, hGet, -⟩ := Option.map_eq_some_iff.mp hSignature
      exact ⟨g, hGet⟩

/-- Functions that match one by one give the whole module, up to ids. -/
theorem renumber_of_matches (h : module.Lowered width) (h' : module'.Lowered width')
    (hExplicit : ∀ id f, module.get? id = some f → f.Explicit)
    (hExplicit' : ∀ id f, module'.get? id = some f → f.Explicit) (hName : module.name = module'.name)
    (hMatches : List.Forall₂ (fun f f' => f.Matches module module' f') module.functions.values
      module'.functions.values) : module' = module.renumber (module.namesake module') := by
  have hEntries : module'.functions.entries = module.functions.entries.map fun entry =>
      (module.namesake module' entry.1, entry.2.renumber (module.namesake module')) := by
    rw [IdMap.values, IdMap.values, List.forall₂_map_left_iff, List.forall₂_map_right_iff] at hMatches
    apply map_eq_of_forall₂ hMatches
    rintro ⟨id, f⟩ hMem ⟨id', f'⟩ hMem' hFunction
    have hGet := h.sorted.get?_of_mem hMem
    have hGet' := h'.sorted.get?_of_mem hMem'
    have hFunctionEq := hFunction.renumber_eq (fun _ _ _ _ => namesake_eq h') (hExplicit id f hGet)
      (hExplicit' id' f' hGet') (h.callsInto hGet) (h'.callsInto hGet')
    exact Prod.ext (namesake_eq h' hGet hGet' hFunction.name) hFunctionEq
  obtain ⟨name, ⟨entries⟩⟩ := module'
  obtain rfl : module.name = name := hName
  exact congrArg (fun entries => Module.mk module.name ⟨entries⟩) hEntries

theorem keepsOrder_of_sorted (h : module.functions.Sorted) {rename : FunctionId → FunctionId}
    (h' : (module.renumber rename).functions.Sorted) : module.KeepsOrder rename := by
  have hKeys : module.functions.keys.Pairwise fun a b => a.index < b.index :=
    (IdMap.sorted_iff_keys _).mp h
  have hRenamed : module.functions.keys.Pairwise fun a b => (rename a).index < (rename b).index := by
    rw [IdMap.Sorted, renumber, List.pairwise_map] at h'
    rw [IdMap.keys, List.pairwise_map]
    exact h'
  rw [List.pairwise_iff_getElem] at hKeys hRenamed
  intro a ha b hb hLess
  obtain ⟨i, hi, rfl⟩ := List.getElem_of_mem ha
  obtain ⟨j, hj, rfl⟩ := List.getElem_of_mem hb
  rcases Nat.lt_trichotomy i j with hBefore | rfl | hBehind
  · exact hRenamed i j hi hj hBefore
  · exact absurd hLess (Nat.lt_irrefl _)
  · exact absurd hLess (Nat.lt_asymm (hKeys j i hj hi hBehind))

/-! ## Ids do not show -/

theorem get?_renumber {rename : FunctionId → FunctionId} (h : module.functions.Sorted)
    (h' : (module.renumber rename).functions.Sorted) {id : FunctionId} {f : Function}
    (hFound : module.get? id = some f) : (module.renumber rename).get? (rename id) = some (f.renumber rename) :=
  h'.get?_of_mem (List.mem_map.mpr ⟨(id, f), (h.mem_entries_iff id f).mpr hFound, rfl⟩)

end Module

namespace Render

variable {module : Module} {rename : FunctionId → FunctionId} {f : Function}

section Renumbered

variable (hGet : ∀ id g, module.get? id = some g →
  (module.renumber rename).get? (rename id) = some (g.renumber rename)) (hCalls : f.CallsInto module)
include hGet hCalls

theorem instruction_renumber {block : BlockId} {i : Instruction} (hMem : i ∈ f.codeAt block) :
    instruction (module.renumber rename) (f.renumber rename) (i.renumber rename) = instruction module f i := by
  cases i with
  | call callee arguments destination =>
    obtain ⟨g, hFound⟩ := hCalls _ _ _ _ hMem
    have hName : calleeName (module.renumber rename) (rename callee) = calleeName module callee := by
      rw [calleeName, calleeName, hGet _ _ hFound, hFound]
      rfl
    simp only [Instruction.renumber, instruction, hName]
  | ret value => cases value <;> rfl
  | _ => rfl

theorem blockLines_renumber {id : BlockId} {row : Block} (hRow : f.blocks.get? id = some row) :
    blockLines (module.renumber rename) (f.renumber rename) id (row.renumber rename) =
      blockLines module f id row := by
  have hCode : ∀ i ∈ row.code, instruction (module.renumber rename) (f.renumber rename) (i.renumber rename) =
      instruction module f i := by
    rw [← f.codeAt_of_get? hRow]
    exact fun i => instruction_renumber hGet hCalls
  rw [blockLines, blockLines, Block.renumber, mapM_map_of_eq fun i hMem => by rw [hCode i hMem]]
  rfl

theorem function_renumber : function (module.renumber rename) (f.renumber rename) = function module f := by
  have hDeclaration : (f.renumber rename).isDeclaration = f.isDeclaration := f.blocks.isEmpty_map _
  have hHeader : header (f.renumber rename) = header f := by
    rw [header, header, hDeclaration]
    rfl
  have hEntries : (f.renumber rename).blocks.entries =
      f.blocks.entries.map fun entry => (entry.1, entry.2.renumber rename) := f.blocks.entries_map _
  rw [function, function, hHeader, hDeclaration, hEntries, mapM_map_of_eq]
  rintro ⟨id, row⟩ hMem
  exact blockLines_renumber hGet hCalls ((f.blocks.mem_entries_iff id row).mp hMem)

end Renumbered
end Render

theorem Module.render?_renumber {width : Nat} {module : Module} (h : module.Lowered width)
    {rename : FunctionId → FunctionId} (h' : (module.renumber rename).functions.Sorted) :
    (module.renumber rename).render? = module.render? := by
  have hFunction : ∀ f ∈ module.functions.values,
      Render.function (module.renumber rename) (f.renumber rename) = Render.function module f := by
    intro f hMem
    obtain ⟨id, hFound⟩ := (h.sorted.mem_values_iff f).mp hMem
    exact Render.function_renumber (fun _ _ => Module.get?_renumber h.sorted h') (h.callsInto hFound)
  have hValues : (module.renumber rename).functions.values =
      module.functions.values.map (Function.renumber rename) := by
    simp [Module.renumber, IdMap.values]
  rw [Module.render?, Module.render?, hValues,
    mapM_map_of_eq fun f hMem => by rw [hFunction f hMem]]
  rfl

/-- The text of a lowered module says all of it but the ids of its functions. Whatever two programs were read,
their modules have texts, and the texts are the same exactly if one module is the other under an order
preserving renumbering. -/
theorem lowerProgram_unambiguous {source source' : Source} {program program' : List Item} {name name' : String}
    (hParse : source.parse = .ok program) (hParse' : source'.parse = .ok program') (hName : '\n' ∉ name.toList)
    (hName' : '\n' ∉ name'.toList) :
    ∃ text text', (lowerProgram name program).1.render? = some text ∧
      (lowerProgram name' program').1.render? = some text' ∧
      (text.plain = text'.plain ↔ ∃ rename, (lowerProgram name program).1.KeepsOrder rename ∧
        (lowerProgram name' program').1 = (lowerProgram name program).1.renumber rename) := by
  have h := lowerProgram_lowered name program
  have h' := lowerProgram_lowered name' program'
  obtain ⟨text, hText⟩ := Option.isSome_iff_exists.mp h.isSome_render?
  obtain ⟨text', hText'⟩ := Option.isSome_iff_exists.mp h'.isSome_render?
  refine ⟨text, text', hText, hText', ?_, ?_⟩
  · intro hSame
    obtain ⟨hTitle, hMatches⟩ := Module.matches_of_plain
      (Lowering.lowerProgram_legible hName (Source.named_of_parse hParse))
      (Lowering.lowerProgram_legible hName' (Source.named_of_parse hParse')) hText hText' hSame
    have hEq := Module.renumber_of_matches h h' (fun _ _ => Lowering.lowerProgram_explicit)
      (fun _ _ => Lowering.lowerProgram_explicit) hTitle hMatches
    exact ⟨_, Module.keepsOrder_of_sorted h.sorted (hEq ▸ h'.sorted), hEq⟩
  · rintro ⟨rename, -, hEq⟩
    rw [hEq, Module.render?_renumber h (hEq ▸ h'.sorted), hText] at hText'
    cases hText'
    rfl

/-- The definition of `f` is given up, and the id of its function stays unused. -/
def withdrawn : Source := ⟨"def f() b end def g(a) a end g(1)", .memory⟩

def withdrawnItems : List Item :=
  [.definition ⟨0, 13⟩ ⟨⟨4, 7⟩, ⟨"f", 4, 5⟩, []⟩ (.variable ⟨8, 9⟩ ⟨"b", 8, 9⟩),
    .definition ⟨14, 28⟩ ⟨⟨18, 22⟩, ⟨"g", 18, 19⟩, [⟨"a", 20, 21⟩]⟩ (.variable ⟨23, 24⟩ ⟨"a", 23, 24⟩),
    .expression (.call ⟨29, 33⟩ ⟨"g", 29, 30⟩ [.int ⟨31, 32⟩ 1])]

def neverTried : Source := ⟨"def g(a) a end g(1)", .memory⟩

def neverTriedItems : List Item :=
  [.definition ⟨0, 14⟩ ⟨⟨4, 8⟩, ⟨"g", 4, 5⟩, [⟨"a", 6, 7⟩]⟩ (.variable ⟨9, 10⟩ ⟨"a", 9, 10⟩),
    .expression (.call ⟨15, 19⟩ ⟨"g", 15, 16⟩ [.int ⟨17, 18⟩ 1])]

theorem withdrawn_unambiguous : withdrawn.parse = .ok withdrawnItems ∧ neverTried.parse = .ok neverTriedItems ∧
    (lowerProgram "m" withdrawnItems).1.functions.keys = [⟨0⟩, ⟨1⟩, ⟨3⟩] ∧
    (lowerProgram "m" neverTriedItems).1.functions.keys = [⟨0⟩, ⟨1⟩, ⟨2⟩] ∧
    ∃ rename, (lowerProgram "m" withdrawnItems).1.KeepsOrder rename ∧
      (lowerProgram "m" neverTriedItems).1 = (lowerProgram "m" withdrawnItems).1.renumber rename := by
  have hParse : withdrawn.parse = .ok withdrawnItems := by cbv
  have hParse' : neverTried.parse = .ok neverTriedItems := by cbv
  have hName : '\n' ∉ "m".toList := by decide
  obtain ⟨text, text', hText, hText', hIff⟩ := lowerProgram_unambiguous hParse hParse' hName hName
  refine ⟨hParse, hParse', by decide +kernel, by decide +kernel, hIff.mp ?_⟩
  have hSame : (lowerProgram "m" withdrawnItems).1.render?.map Styled.plain =
      (lowerProgram "m" neverTriedItems).1.render?.map Styled.plain := by
    decide +kernel
  rw [hText, hText'] at hSame
  exact Option.some.inj hSame

end Slate
