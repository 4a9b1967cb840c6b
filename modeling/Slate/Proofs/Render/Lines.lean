import Slate.Proofs.Render.Instruction

/-! # The lines of a module

The text of a module is made of lines: one for its name, and for each function an empty one and those of the
function. A function starts with its header; then each block has a line of its own, in front of the lines of
its instructions, which are indented. So a text says where functions and blocks start.
-/

namespace Slate
set_option autoImplicit false

/-! ## Modules that show the same -/

structure Block.Matches (module module' : Module) (f f' : Function) (entry entry' : BlockId × Block) : Prop where
  id : entry.1 = entry'.1
  label : entry.2.label = entry'.2.label
  predecessors : entry.2.predecessors = entry'.2.predecessors
  code : List.Forall₂ (Instruction.Matches module module' f f') entry.2.code entry'.2.code

structure Function.Matches (f : Function) (module module' : Module) (f' : Function) : Prop where
  name : f.name = f'.name
  linkage : f.linkage = f'.linkage
  result : f.signature.result = f'.signature.result
  variadic : f.signature.variadic = f'.signature.variadic
  parameters : f.parameters = f'.parameters
  blocks : List.Forall₂ (Block.Matches module module' f f') f.blocks.entries f'.blocks.entries

structure Function.Legible (f : Function) : Prop where
  name : Render.Solid f.name.toList
  slots : ∀ id row, f.slots.get? id = some row → Render.Solid row.name.toList
  labels : ∀ id row, f.blocks.get? id = some row → Render.Solid row.label.toList

structure Module.Legible (module : Module) : Prop where
  name : '\n' ∉ module.name.toList
  functions : ∀ f ∈ module.functions.values, f.Legible

namespace Render

variable {module module' : Module} {f f' : Function}

theorem forall₂_of_map_eq {α β γ : Type} {related : α → β → Prop} {g : α → γ} {g' : β → γ} {list : List α}
    {list' : List β} (h : list.map g = list'.map g')
    (hRelated : ∀ a ∈ list, ∀ b ∈ list', g a = g' b → related a b) : List.Forall₂ related list list' := by
  induction list generalizing list' with
  | nil =>
    cases list' with
    | nil => exact .nil
    | cons first' rest' => cases h
  | cons first rest ih =>
    cases list' with
    | nil => cases h
    | cons first' rest' =>
      obtain ⟨hFirst, hRest⟩ := List.cons.inj h
      refine .cons (hRelated first (by simp) first' (by simp) hFirst) (ih hRest ?_)
      intro a hMem b hMem' hEq
      exact hRelated a (List.mem_cons_of_mem _ hMem) b (List.mem_cons_of_mem _ hMem') hEq

/-! ## Lines of instructions -/

def codeLine (module : Module) (f : Function) (i : Instruction) : List Char :=
  [' ', ' ', ' ', ' '] ++ Styled.chars ((instruction module f i).getD [])

theorem newline_notMem_commas {texts : List (List Char)} (h : ∀ text ∈ texts, '\n' ∉ text) :
    '\n' ∉ commas texts := by
  induction texts with
  | nil => simp [commas]
  | cons first rest ih =>
    rw [List.forall_mem_cons] at h
    cases rest with
    | nil => simpa using h.1
    | cons second rest => simp [h.1, ih h.2]

theorem newline_notMem_rest (hName : ∀ id, Solid (calleeName module id).toList) (hLegible : f.Legible)
    (i : Instruction) : '\n' ∉ rest module f i := by
  have hOperand : ∀ value : Operand, '\n' ∉ value.text.toList := fun value => (solid_operand value).notMem rfl
  have hSlot : ∀ id : SlotId, '\n' ∉ id.text.toList := fun id => (solid_slot id).notMem rfl
  have hBlock : ∀ id : BlockId, '\n' ∉ id.text.toList := fun id => (solid_block id).notMem rfl
  have hTy : ∀ width : Ty, '\n' ∉ width.text.toList := fun width => (solid_ty width).notMem rfl
  cases i with
  | alloca id =>
    rw [rest]
    cases hRow : f.slots.get? id with
    | none => simp
    | some row => simp [hTy, (hLegible.slots id row hRow).notMem (rfl : isSolid '\n' = false)]
  | compare predicate destination lhs rhs =>
    simp [rest, hOperand, (solid_predicate predicate).notMem (rfl : isSolid '\n' = false)]
  | call callee arguments destination =>
    have hArguments : '\n' ∉ commas (arguments.map fun argument => argument.text.toList) :=
      newline_notMem_commas (by simp [hOperand])
    simp [rest, hArguments, (hName callee).notMem (rfl : isSolid '\n' = false)]
  | phi destination sources =>
    have hSources : '\n' ∉ commas (sources.entries.map sourceText) :=
      newline_notMem_commas (List.forall_mem_map.mpr fun source _ => by simp [sourceText, hOperand, hBlock])
    rw [rest]
    cases f.registers.get? destination with
    | none => simp
    | some width => simp [hTy, hSources]
  | ret value =>
    cases value with
    | none => exact hTy .void
    | some value => exact hOperand value
  | load | store | arith | extend | jump | branch => simp [rest, hOperand, hSlot, hBlock, hTy]

theorem newline_notMem_codeLine (hName : ∀ id, Solid (calleeName module id).toList) (hLegible : f.Legible)
    (i : Instruction) : '\n' ∉ codeLine module f i := by
  rw [codeLine]
  cases hText : instruction module f i with
  | none => simp
  | some text =>
    have hRest := newline_notMem_rest hName hLegible i
    have hOpcode := (solid_opcode i).notMem (rfl : isSolid '\n' = false)
    rw [Option.getD_some, instruction_chars module f hText]
    cases hTarget : target? i with
    | none => simp [hOpcode, hRest]
    | some target => simp [hOpcode, hRest, (target_text hTarget).1.notMem (rfl : isSolid '\n' = false)]

theorem codeLine_inj (hName : ∀ id, Solid (calleeName module id).toList)
    (hName' : ∀ id, Solid (calleeName module' id).toList) {i i' : Instruction}
    (hShown : (instruction module f i).isSome = true) (hShown' : (instruction module' f' i').isSome = true)
    (h : codeLine module f i = codeLine module' f' i') : i.Matches module module' f f' i' := by
  obtain ⟨text, hText⟩ := Option.isSome_iff_exists.mp hShown
  obtain ⟨text', hText'⟩ := Option.isSome_iff_exists.mp hShown'
  have hChars := List.append_cancel_left h
  rw [hText, hText', Option.getD_some, Option.getD_some, instruction_chars module f hText,
    instruction_chars module' f' hText'] at hChars
  obtain ⟨hTarget, hOpcode, hRest⟩ := parts_of_chars hChars
  exact matches_of_parts hTarget hOpcode hRest hShown hShown' hName hName'

/-! ## Lines of blocks -/

def blockLine (entry : BlockId × Block) : List Char :=
  entry.1.text.toList ++ ':' :: ' ' :: (blockComment entry.2).toList

def leadingText (row : Block) : List Char :=
  if row.predecessors.isEmpty then []
  else ", preds = ".toList ++ commas (row.predecessors.ids.map fun id => (BlockId.text id).toList)

theorem blockComment_chars (row : Block) :
    (blockComment row).toList = ';' :: ' ' :: (row.label.toList ++ leadingText row) := by
  rw [blockComment, leadingText]
  split
  · simp [toString]
  · simp [toString, String.toList_intercalate, commas, Function.comp_def]

theorem newline_notMem_blockLine {entry : BlockId × Block} (hLabel : Solid entry.2.label.toList) :
    '\n' ∉ blockLine entry := by
  have hBlock : ∀ id : BlockId, '\n' ∉ id.text.toList := fun id => (solid_block id).notMem rfl
  have hLeading : '\n' ∉ leadingText entry.2 := by
    rw [leadingText]
    split
    · simp
    · have hIds : '\n' ∉ commas (entry.2.predecessors.ids.map fun id => (BlockId.text id).toList) :=
        newline_notMem_commas (List.forall_mem_map.mpr fun id _ => hBlock id)
      simp [hIds]
  simp [blockLine, blockComment_chars, hBlock, hLeading, hLabel.notMem (rfl : isSolid '\n' = false)]

theorem leadingText_inj {row row' : Block} (h : leadingText row = leadingText row') :
    row.predecessors = row'.predecessors := by
  have hTexts : ∀ ids : List BlockId, ∀ text ∈ ids.map (fun id => (BlockId.text id).toList),
      text ≠ [] ∧ ',' ∉ text := by
    intro ids text hText
    obtain ⟨id, -, rfl⟩ := List.mem_map.mp hText
    exact ⟨by simp [block_text], (solid_block id).notMem rfl⟩
  suffices hIds : row.predecessors.ids = row'.predecessors.ids from congrArg IdSet.mk hIds
  simp only [leadingText, IdSet.isEmpty, List.isEmpty_iff] at h
  split at h
  · rename_i hNone
    split at h
    · rename_i hNone'
      rw [hNone, hNone']
    · simp at h
  · split at h
    · simp at h
    · have hTexts' := commas_inj (List.append_cancel_left h) (hTexts _) (hTexts _)
      exact List.map_injective_iff.mpr (fun _ _ => block_inj) hTexts'

theorem stops_leadingText (row : Block) : Stops isSolid (leadingText row) := by
  rw [leadingText]
  split
  · exact stops_nil
  · exact (stops_cons ',' _).mpr rfl

theorem blockLine_inj {entry entry' : BlockId × Block} (hLabel : Solid entry.2.label.toList)
    (hLabel' : Solid entry'.2.label.toList) (h : blockLine entry = blockLine entry') :
    entry.1 = entry'.1 ∧ entry.2.label = entry'.2.label ∧ entry.2.predecessors = entry'.2.predecessors := by
  obtain ⟨hId, hComment⟩ := Solid.cut h (solid_block entry.1) (solid_block entry'.1) rfl
  rw [blockComment_chars, blockComment_chars] at hComment
  simp only [List.cons.injEq, true_and] at hComment
  obtain ⟨hLabels, hLeading⟩ :=
    split hComment hLabel hLabel' (stops_leadingText entry.2) (stops_leadingText entry'.2)
  exact ⟨block_inj hId, String.toList_inj.mp hLabels, leadingText_inj hLeading⟩

/-! ## Headers -/

/-- A parameter with its type. -/
def parameterText (f : Function) (id : RegisterId) : List Char :=
  (f.registers.get? id).elim [] fun width => width.text.toList ++ ' ' :: id.text.toList

def parameterTexts (f : Function) : List (List Char) :=
  f.parameters.map (parameterText f) ++ if f.signature.variadic then ["...".toList] else []

def keywordText (f : Function) : String := if f.isDeclaration then "declare" else "define"

theorem header_chars {text : Styled} (h : header f = some text) :
    text.chars = (keywordText f).toList ++ ' ' :: (f.linkage.text.toList ++ ' ' ::
      (f.signature.result.text.toList ++ ' ' :: '@' :: (f.name.toList ++
        '(' :: (commas (parameterTexts f) ++ [')'])))) := by
  obtain ⟨parameters, hParameters, hText⟩ := Option.bind_eq_some_iff.mp h
  cases hText
  have hTexts : parameters.map Styled.chars = f.parameters.map (parameterText f) := by
    rw [(of_mapM_eq_some hParameters []).1, List.map_map]
    apply List.map_congr_left
    intro id hMem
    rw [Function.comp_apply, parameterText]
    cases f.registers.get? id with
    | none => rfl
    | some width => simp
  cases hVariadic : f.signature.variadic with
  | true => simp [keywordText, parameterTexts, hVariadic, hTexts]
  | false => simp [keywordText, parameterTexts, hVariadic, hTexts]

theorem parameters_shown {text : Styled} (h : header f = some text) :
    ∀ id ∈ f.parameters, ∃ width, f.registers.get? id = some width := by
  intro id hMem
  obtain ⟨parameters, hParameters, -⟩ := Option.bind_eq_some_iff.mp h
  exact exists_of_isSome_bind ((of_mapM_eq_some hParameters []).2 id hMem)

theorem parameterText_eq {id : RegisterId} {width : Ty} (h : f.registers.get? id = some width) :
    parameterText f id = width.text.toList ++ ' ' :: id.text.toList := by
  rw [parameterText, h]
  rfl

theorem notMem_parameterText (f : Function) (id : RegisterId) {c : Char} (hSolid : isSolid c = false)
    (hBlank : c ≠ ' ') : c ∉ parameterText f id := by
  rw [parameterText]
  cases f.registers.get? id with
  | none => simp
  | some width => simp [(solid_ty width).notMem hSolid, (solid_register id).notMem hSolid, hBlank]

theorem parameterTexts_inj (hShown : ∀ id ∈ f.parameters, ∃ width, f.registers.get? id = some width)
    (hShown' : ∀ id ∈ f'.parameters, ∃ width, f'.registers.get? id = some width)
    (h : parameterTexts f = parameterTexts f') :
    f.signature.variadic = f'.signature.variadic ∧ f.parameters = f'.parameters := by
  have hDots : ∀ f : Function, "...".toList ∉ f.parameters.map (parameterText f) := by
    intro f hMem
    obtain ⟨id, -, hText⟩ := List.mem_map.mp hMem
    have hNone := notMem_parameterText f id (c := '.') rfl (by decide)
    rw [hText] at hNone
    exact hNone (by decide)
  have hParameters : f.parameters.map (parameterText f) = f'.parameters.map (parameterText f') →
      f.parameters = f'.parameters := by
    intro hTexts
    rw [← List.forall₂_eq_eq_eq]
    apply forall₂_of_map_eq hTexts
    intro id hMem id' hMem' hText
    obtain ⟨width, hWidth⟩ := hShown id hMem
    obtain ⟨width', hWidth'⟩ := hShown' id' hMem'
    rw [parameterText_eq hWidth, parameterText_eq hWidth'] at hText
    exact register_inj (Solid.cut hText (solid_ty width) (solid_ty width') rfl).2
  rw [parameterTexts, parameterTexts] at h
  cases hVariadic : f.signature.variadic with
  | true =>
    cases hVariadic' : f'.signature.variadic with
    | true =>
      rw [hVariadic, hVariadic'] at h
      exact ⟨rfl, hParameters (List.append_cancel_right h)⟩
    | false =>
      simp only [hVariadic, hVariadic', if_true, Bool.false_eq_true, if_false, List.append_nil] at h
      exact absurd (h ▸ by simp) (hDots f')
  | false =>
    cases hVariadic' : f'.signature.variadic with
    | true =>
      simp only [hVariadic, hVariadic', if_true, Bool.false_eq_true, if_false, List.append_nil] at h
      exact absurd (h ▸ by simp) (hDots f)
    | false =>
      simp only [hVariadic, hVariadic', Bool.false_eq_true, if_false, List.append_nil] at h
      exact ⟨rfl, hParameters h⟩

theorem solid_linkage (linkage : Linkage) : Solid linkage.text.toList := by
  cases linkage <;> decide

theorem linkage_inj {linkage linkage' : Linkage} (h : linkage.text.toList = linkage'.text.toList) :
    linkage = linkage' := by
  revert h
  cases linkage <;> cases linkage' <;> decide

theorem solid_keywordText (f : Function) : Solid (keywordText f).toList := by
  rw [keywordText]
  split <;> decide

theorem parameterTexts_legible (hShown : ∀ id ∈ f.parameters, ∃ width, f.registers.get? id = some width) :
    ∀ text ∈ parameterTexts f, text ≠ [] ∧ ',' ∉ text := by
  rw [parameterTexts, List.forall_mem_append]
  constructor
  · intro text hMem
    obtain ⟨id, hId, rfl⟩ := List.mem_map.mp hMem
    obtain ⟨width, hWidth⟩ := hShown id hId
    refine ⟨?_, notMem_parameterText f id rfl (by decide)⟩
    rw [parameterText_eq hWidth]
    simp
  · split
    · decide
    · simp

theorem header_inj {text text' : Styled} (hText : header f = some text) (hText' : header f' = some text')
    (hName : Solid f.name.toList) (hName' : Solid f'.name.toList) (h : text.chars = text'.chars) :
    f.linkage = f'.linkage ∧ f.signature.result = f'.signature.result ∧ f.name = f'.name ∧
      f.signature.variadic = f'.signature.variadic ∧ f.parameters = f'.parameters := by
  have hShown := parameters_shown hText
  have hShown' := parameters_shown hText'
  rw [header_chars hText, header_chars hText'] at h
  obtain ⟨-, hLinkage⟩ := Solid.cut h (solid_keywordText f) (solid_keywordText f') rfl
  obtain ⟨hLinkage, hResult⟩ := Solid.cut hLinkage (solid_linkage f.linkage) (solid_linkage f'.linkage) rfl
  obtain ⟨hResult, hRest⟩ := Solid.cut hResult (solid_ty _) (solid_ty _) rfl
  obtain ⟨hNames, hRest⟩ := Solid.cut (List.cons.inj hRest).2 hName hName' rfl
  have hTexts := commas_inj (List.append_cancel_right hRest) (parameterTexts_legible hShown)
    (parameterTexts_legible hShown')
  exact ⟨linkage_inj hLinkage, ty_inj hResult, String.toList_inj.mp hNames,
    parameterTexts_inj hShown hShown' hTexts⟩

/-! ## Functions -/

theorem chars_flatten (texts : List Styled) : Styled.chars texts.flatten = texts.flatMap Styled.chars := by
  induction texts with
  | nil => rfl
  | cons first rest ih => simp [ih]

theorem unlines_parts (list : List (List Char × List (List Char))) :
    unlines (parts list) = list.flatMap fun part => unlines (part.1 :: part.2) := List.flatMap_assoc

def headLine (f : Function) : List Char :=
  Styled.chars ((header f).getD []) ++ if f.isDeclaration then [] else [' ', '\x7b']

def codeLines (module : Module) (f : Function) (entry : BlockId × Block) : List (List Char) :=
  entry.2.code.map (codeLine module f)

def functionLines (module : Module) (f : Function) : List (List Char) :=
  headLine f :: if f.isDeclaration then []
    else parts (f.blocks.entries.map fun entry => (blockLine entry, codeLines module f entry)) ++ [['\x7d']]

theorem blockLines_chars {entry : BlockId × Block} {text : Styled}
    (h : blockLines module f entry.1 entry.2 = some text) :
    text.chars = unlines (blockLine entry :: codeLines module f entry) ∧
      ∀ i ∈ entry.2.code, (instruction module f i).isSome = true := by
  obtain ⟨lines, hLines, hText⟩ := Option.bind_eq_some_iff.mp h
  cases hText
  obtain ⟨hEq, hShown⟩ := of_mapM_eq_some hLines []
  have hInstructions : ∀ i ∈ entry.2.code, (instruction module f i).isSome = true := by
    intro i hMem
    obtain ⟨line, hLine⟩ := exists_of_isSome_bind (hShown i hMem)
    rw [hLine]
    rfl
  refine ⟨?_, hInstructions⟩
  have hCode : lines.flatMap Styled.chars = unlines (codeLines module f entry) := by
    rw [hEq, List.flatMap_map, codeLines, unlines, List.flatMap_map]
    apply List.flatMap_congr
    intro i hMem
    obtain ⟨line, hLine⟩ := Option.isSome_iff_exists.mp (hInstructions i hMem)
    simp [hLine, codeLine]
  simp [chars_flatten, hCode, unlines, blockLine, toString]

theorem function_chars {text : Styled} (h : function module f = some text) :
    text.chars = unlines (functionLines module f) ∧ (header f).isSome = true ∧
      (f.isDeclaration = false → ∀ entry ∈ f.blocks.entries, ∀ i ∈ entry.2.code,
        (instruction module f i).isSome = true) := by
  obtain ⟨head, hHead, hText⟩ := Option.bind_eq_some_iff.mp h
  rw [functionLines, headLine, hHead]
  cases hDeclaration : f.isDeclaration with
  | true =>
    rw [hDeclaration] at hText
    cases hText
    exact ⟨by simp [unlines], rfl, fun hBody => by cases hBody⟩
  | false =>
    rw [hDeclaration] at hText
    obtain ⟨blocks, hBlocks, hText⟩ := Option.bind_eq_some_iff.mp hText
    cases hText
    obtain ⟨hEq, hShown⟩ := of_mapM_eq_some hBlocks []
    have hLines : ∀ entry ∈ f.blocks.entries, ∃ text, blockLines module f entry.1 entry.2 = some text :=
      fun entry hMem => Option.isSome_iff_exists.mp (hShown entry hMem)
    have hCode : blocks.flatMap Styled.chars = unlines (parts (f.blocks.entries.map fun entry =>
        (blockLine entry, codeLines module f entry))) := by
      rw [unlines_parts, hEq, List.flatMap_map, List.flatMap_map]
      apply List.flatMap_congr
      intro entry hMem
      obtain ⟨lines, hLine⟩ := hLines entry hMem
      change Styled.chars ((blockLines module f entry.1 entry.2).getD []) = _
      rw [hLine]
      exact (blockLines_chars hLine).1
    refine ⟨?_, rfl, fun _ entry hMem => ?_⟩
    · simp [chars_flatten, hCode, unlines]
    · obtain ⟨lines, hLine⟩ := hLines entry hMem
      exact (blockLines_chars hLine).2

theorem headLine_inj (hShown : (header f).isSome = true) (hShown' : (header f').isSome = true)
    (hName : Solid f.name.toList) (hName' : Solid f'.name.toList) (h : headLine f = headLine f') :
    f.isDeclaration = f'.isDeclaration ∧ f.linkage = f'.linkage ∧ f.signature.result = f'.signature.result ∧
      f.name = f'.name ∧ f.signature.variadic = f'.signature.variadic ∧ f.parameters = f'.parameters := by
  obtain ⟨text, hText⟩ := Option.isSome_iff_exists.mp hShown
  obtain ⟨text', hText'⟩ := Option.isSome_iff_exists.mp hShown'
  rw [headLine, headLine, hText, hText', Option.getD_some, Option.getD_some] at h
  have hDeclaration : f.isDeclaration = f'.isDeclaration := by
    rw [header_chars hText, header_chars hText', List.append_assoc, List.append_assoc, List.cons_append,
      List.cons_append] at h
    have hKeyword := (Solid.cut h (solid_keywordText f) (solid_keywordText f') rfl).1
    revert hKeyword
    rw [keywordText, keywordText]
    cases f.isDeclaration <;> cases f'.isDeclaration <;> decide
  rw [hDeclaration] at h
  exact ⟨hDeclaration, header_inj hText hText' hName hName' (List.append_cancel_right h)⟩

theorem entries_eq_nil (h : f.isDeclaration = true) : f.blocks.entries = [] := by
  have hSize := (f.blocks.isEmpty_iff).mp h
  rw [List.eq_nil_iff_forall_not_mem]
  rintro ⟨id, row⟩ hMem
  have hLt := Table.lt_of_get? ((Table.mem_entries_iff _ _ _).mp hMem)
  omega

def isIndented (line : List Char) : Bool := line.head? = some ' '

theorem isIndented_blockLine (entry : BlockId × Block) : isIndented (blockLine entry) = false := by
  simp [isIndented, blockLine, block_text]

theorem isIndented_codeLines (module : Module) (f : Function) (entry : BlockId × Block) :
    ∀ line ∈ codeLines module f entry, isIndented line = true := by
  intro line hLine
  obtain ⟨i, -, rfl⟩ := List.mem_map.mp hLine
  rfl

theorem functionLines_inj (hName : ∀ id, Solid (calleeName module id).toList)
    (hName' : ∀ id, Solid (calleeName module' id).toList) (hLegible : f.Legible) (hLegible' : f'.Legible)
    {text text' : Styled} (hText : function module f = some text) (hText' : function module' f' = some text')
    (h : functionLines module f = functionLines module' f') : f.Matches module module' f' := by
  obtain ⟨-, hShown, hCode⟩ := function_chars hText
  obtain ⟨-, hShown', hCode'⟩ := function_chars hText'
  obtain ⟨hHead, hLines⟩ := List.cons.inj h
  obtain ⟨hDeclaration, hLinkage, hResult, hNames, hVariadic, hParameters⟩ :=
    headLine_inj hShown hShown' hLegible.name hLegible'.name hHead
  refine ⟨hNames, hLinkage, hResult, hVariadic, hParameters, ?_⟩
  cases hBody : f.isDeclaration with
  | true =>
    rw [entries_eq_nil hBody, entries_eq_nil (hDeclaration ▸ hBody)]
    exact .nil
  | false =>
    have hBody' : f'.isDeclaration = false := hDeclaration ▸ hBody
    simp only [hBody, hBody', Bool.false_eq_true, if_false] at hLines
    have hParts := parts_inj (p := isIndented) (List.append_cancel_right hLines)
      (List.forall_mem_map.mpr fun entry _ => ⟨isIndented_blockLine entry, isIndented_codeLines module f entry⟩)
      (List.forall_mem_map.mpr fun entry _ => ⟨isIndented_blockLine entry, isIndented_codeLines module' f' entry⟩)
    apply forall₂_of_map_eq hParts
    intro entry hMem entry' hMem' hEq
    obtain ⟨hBlock, hInstructions⟩ := Prod.mk.inj hEq
    obtain ⟨hId, hLabel, hPredecessors⟩ := blockLine_inj
      (hLegible.labels entry.1 entry.2 ((Table.mem_entries_iff _ _ _).mp hMem))
      (hLegible'.labels entry'.1 entry'.2 ((Table.mem_entries_iff _ _ _).mp hMem')) hBlock
    refine ⟨hId, hLabel, hPredecessors, forall₂_of_map_eq hInstructions ?_⟩
    intro i hi i' hi' hLine
    exact codeLine_inj hName hName' (hCode hBody entry hMem i hi) (hCode' hBody' entry' hMem' i' hi') hLine

theorem newline_notMem_headLine (hLegible : f.Legible) (hShown : (header f).isSome = true) :
    '\n' ∉ headLine f ∧ headLine f ≠ [] := by
  obtain ⟨text, hText⟩ := Option.isSome_iff_exists.mp hShown
  have hTexts : '\n' ∉ commas (parameterTexts f) := by
    apply newline_notMem_commas
    rw [parameterTexts, List.forall_mem_append]
    constructor
    · exact List.forall_mem_map.mpr fun id _ => notMem_parameterText f id rfl (by decide)
    · split
      · decide
      · simp
  rw [headLine, hText, Option.getD_some, header_chars hText]
  constructor
  · have hKeyword := (solid_keywordText f).notMem (rfl : isSolid '\n' = false)
    have hLinkage := (solid_linkage f.linkage).notMem (rfl : isSolid '\n' = false)
    have hResult := (solid_ty f.signature.result).notMem (rfl : isSolid '\n' = false)
    have hName := hLegible.name.notMem (rfl : isSolid '\n' = false)
    cases f.isDeclaration <;> simp [hKeyword, hLinkage, hResult, hName, hTexts]
  · simp

theorem legible_functionLines (hName : ∀ id, Solid (calleeName module id).toList) (hLegible : f.Legible)
    (hShown : (header f).isSome = true) : ∀ line ∈ functionLines module f, '\n' ∉ line ∧ line ≠ [] := by
  rw [functionLines, List.forall_mem_cons]
  refine ⟨newline_notMem_headLine hLegible hShown, ?_⟩
  split
  · simp
  · rw [List.forall_mem_append]
    constructor
    · intro line hLine
      obtain ⟨entry, hEntry, hLine⟩ := List.mem_flatMap.mp hLine
      obtain ⟨block, hBlock, rfl⟩ := List.mem_map.mp hEntry
      have hLabel := hLegible.labels block.1 block.2 ((Table.mem_entries_iff _ _ _).mp hBlock)
      rcases List.mem_cons.mp hLine with rfl | hLine
      · exact ⟨newline_notMem_blockLine hLabel, by simp [blockLine]⟩
      · obtain ⟨i, -, rfl⟩ := List.mem_map.mp hLine
        exact ⟨newline_notMem_codeLine hName hLegible i, by simp [codeLine]⟩
    · decide

/-! ## Modules -/

def moduleLines (module : Module) : List (List Char) :=
  ("module ".toList ++ module.name.toList) ::
    parts (module.functions.values.map fun f => ([], functionLines module f))

end Render

open Render

variable {module module' : Module}

theorem Module.render?_chars {text : Styled} (h : module.render? = some text) :
    text.chars = unlines (moduleLines module) ∧
      ∀ f ∈ module.functions.values, ∃ text, function module f = some text := by
  obtain ⟨functions, hFunctions, hText⟩ := Option.bind_eq_some_iff.mp h
  cases hText
  obtain ⟨hEq, hShown⟩ := of_mapM_eq_some hFunctions []
  have hTexts : ∀ f ∈ module.functions.values, ∃ text, function module f = some text :=
    fun f hMem => exists_of_isSome_bind (hShown f hMem)
  refine ⟨?_, hTexts⟩
  have hLines : functions.flatMap Styled.chars =
      unlines (parts (module.functions.values.map fun f => ([], functionLines module f))) := by
    rw [unlines_parts, hEq, List.flatMap_map, List.flatMap_map]
    apply List.flatMap_congr
    intro f hMem
    obtain ⟨text, hText⟩ := hTexts f hMem
    rw [hText]
    simp [(function_chars hText).1, unlines]
  simp [moduleLines, chars_flatten, hLines, unlines]

theorem Module.Legible.calleeName (h : module.Legible) (id : FunctionId) :
    Solid (calleeName module id).toList := by
  rw [Render.calleeName]
  cases hFound : module.get? id with
  | none => decide
  | some f => exact (h.functions f (List.mem_map.mpr ⟨(id, f), IdMap.mem_of_get? hFound, rfl⟩)).name

theorem Module.Legible.lines (h : module.Legible) {text : Styled} (hText : module.render? = some text) :
    ∀ line ∈ moduleLines module, '\n' ∉ line := by
  rw [moduleLines, List.forall_mem_cons]
  constructor
  · simp [h.name]
  · intro line hLine
    obtain ⟨part, hPart, hLine⟩ := List.mem_flatMap.mp hLine
    obtain ⟨f, hMem, rfl⟩ := List.mem_map.mp hPart
    obtain ⟨text, hFunction⟩ := (render?_chars hText).2 f hMem
    rcases List.mem_cons.mp hLine with rfl | hLine
    · simp
    · exact (legible_functionLines h.calleeName (h.functions f hMem) (function_chars hFunction).2.1 line hLine).1

theorem Module.Legible.parts (h : module.Legible) {text : Styled} (hText : module.render? = some text) :
    ∀ part ∈ module.functions.values.map (fun f => (([] : List Char), functionLines module f)),
      (!part.1.isEmpty) = false ∧ ∀ line ∈ part.2, (!line.isEmpty) = true := by
  intro part hPart
  obtain ⟨f, hMem, rfl⟩ := List.mem_map.mp hPart
  obtain ⟨text, hFunction⟩ := (render?_chars hText).2 f hMem
  refine ⟨rfl, ?_⟩
  intro line hLine
  have hLine := (legible_functionLines h.calleeName (h.functions f hMem) (function_chars hFunction).2.1 line hLine).2
  simpa using hLine

/-- The text of a module says all that two modules have to have in common to match. -/
theorem Module.matches_of_plain (hLegible : module.Legible) (hLegible' : module'.Legible) {text text' : Styled}
    (hText : module.render? = some text) (hText' : module'.render? = some text')
    (h : text.plain = text'.plain) : module.name = module'.name ∧
      List.Forall₂ (fun f f' => f.Matches module module' f') module.functions.values module'.functions.values := by
  have hShown := (render?_chars hText).2
  have hShown' := (render?_chars hText').2
  have hLines : moduleLines module = moduleLines module' := by
    apply unlines_inj _ (hLegible.lines hText) (hLegible'.lines hText')
    rw [← (render?_chars hText).1, ← (render?_chars hText').1, Styled.chars_eq, Styled.chars_eq, h]
  obtain ⟨hHead, hFunctions⟩ := List.cons.inj hLines
  refine ⟨String.toList_inj.mp (List.append_cancel_left hHead), ?_⟩
  have hParts := parts_inj (p := fun line => !line.isEmpty) hFunctions (hLegible.parts hText)
    (hLegible'.parts hText')
  apply forall₂_of_map_eq hParts
  intro f hMem f' hMem' hEq
  obtain ⟨text, hFunction⟩ := hShown f hMem
  obtain ⟨text', hFunction'⟩ := hShown' f' hMem'
  exact functionLines_inj hLegible.calleeName hLegible'.calleeName (hLegible.functions f hMem)
    (hLegible'.functions f' hMem') hFunction hFunction' (Prod.mk.inj hEq).2

end Slate
