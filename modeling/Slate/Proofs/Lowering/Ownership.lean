import Slate.Proofs.Analysis
import Slate.Proofs.Lowering.Names

/-! # What an item may touch

A top-level expression works on the entry function alone. A prototype or a definition works on the function
of its own name alone, whether it succeeds or not. A prototype that is rejected changes nothing, and a
definition whose body has no value is withdrawn: what remains of it is the declaration, where calls still
need one. A body that was lowered is therefore final.
-/

namespace Slate
set_option autoImplicit false

theorem IdMap.Sorted.ext {kind : IdKind} {α : Type} {a b : IdMap kind α} (ha : a.Sorted) (hb : b.Sorted)
    (h : ∀ id, a.get? id = b.get? id) : a = b := by
  have hNodup : ∀ {map : IdMap kind α}, map.Sorted → map.entries.Nodup := by
    intro map hMap
    apply hMap.imp
    rintro first _ hLess rfl
    exact Nat.lt_irrefl _ hLess
  have hPerm : a.entries.Perm b.entries := by
    rw [List.perm_ext_iff_of_nodup (hNodup ha) (hNodup hb)]
    rintro ⟨id, value⟩
    rw [ha.mem_entries_iff, hb.mem_entries_iff, h]
  have hEntries : a.entries = b.entries := by
    refine hPerm.eq_of_pairwise ?_ ha hb
    intro first second _ _ hLess hGreater
    exact absurd hLess (Nat.lt_asymm hGreater)
  cases a
  cases b
  exact congrArg IdMap.mk hEntries

theorem Instruction.calls_iff (instruction : Instruction) (id : FunctionId) :
    instruction.calls id = true ↔ ∃ arguments destination, instruction = .call id arguments destination := by
  constructor
  · intro h
    cases instruction with
    | call callee arguments destination =>
      cases of_decide_eq_true h
      exact ⟨arguments, destination, rfl⟩
    | alloca | load | store | arith | compare | extend | phi | jump | branch | ret => cases h
  · rintro ⟨arguments, destination, rfl⟩
    exact decide_eq_true rfl

namespace Assembly

/-- A function other than this one calls it. -/
def CalledElsewhere (assembly : Assembly) (id : FunctionId) : Prop :=
  ∃ other f place block arguments destination, other ≠ id ∧ assembly.get? other = some f ∧
    f.blocks.get? place = some block ∧ .call id arguments destination ∈ block.code

theorem calledElsewhere_iff (assembly : Assembly) (id : FunctionId) : assembly.CalledElsewhere id ↔
    ∃ other f, other ≠ id ∧ assembly.get? other = some f ∧
      ∃ instruction ∈ f.code, instruction.calls id = true := by
  constructor
  · rintro ⟨other, f, place, block, arguments, destination, hNe, hFound, hBlock, hMem⟩
    refine ⟨other, f, hNe, hFound, .call id arguments destination, ?_, decide_eq_true rfl⟩
    exact (f.mem_code_iff _).mpr ⟨place, block, hBlock, hMem⟩
  · rintro ⟨other, f, hNe, hFound, instruction, hMem, hCalls⟩
    obtain ⟨arguments, destination, rfl⟩ := (instruction.calls_iff id).mp hCalls
    obtain ⟨place, block, hBlock, hMem⟩ := (f.mem_code_iff _).mp hMem
    exact ⟨other, f, place, block, arguments, destination, hNe, hFound, hBlock, hMem⟩

end Assembly

namespace Lowering

theorem mem_reserved_iff (name : String) : name ∈ Analysis.reserved ↔ isReserved name = true := by
  constructor
  · intro hMem
    simp only [Analysis.reserved, List.mem_cons, List.not_mem_nil, or_false] at hMem
    rcases hMem with rfl | rfl | rfl
    · decide
    · decide
    · decide
  · intro hReserved
    rw [isReserved, Bool.or_eq_true, decide_eq_true_eq] at hReserved
    rcases hReserved with rfl | hHost
    · decide
    · simp only [hostFunctions, List.any_cons, List.any_nil, Bool.or_false, Bool.or_eq_true,
        decide_eq_true_eq] at hHost
      rcases hHost with rfl | rfl
      · decide
      · decide

/-- A prototype that cannot be accepted: its name is reserved, two of its parameters have one name, or
there is a function of its name with a body or with another number of parameters. -/
inductive Rejects (state : Lowering) (head : Prototype) : Prop where
  | reserved (hReserved : head.name.text ∈ Analysis.reserved)
  | repeated (hRepeated : ¬ (head.parameters.map Name.text).Nodup)
  | defined (id : FunctionId) (f : Function) (hFound : state.assembly.get? id = some f)
      (hName : f.name = head.name.text) (hBody : 0 < f.blocks.size)
  | arity (id : FunctionId) (f : Function) (hFound : state.assembly.get? id = some f)
      (hName : f.name = head.name.text)
      (hArity : f.signature.parameters.length ≠ head.parameters.length)

/-- Nothing changed but the function of this name and what the table says of the name. -/
structure KeepsOthers (name : String) (before after : Lowering) : Prop where
  entry : after.entry = before.entry
  insertion : after.insertion = before.insertion
  scope : after.scope = before.scope
  main : after.assembly.get? before.entry = before.assembly.get? before.entry
  others : ∀ id f, f.name ≠ name →
    (after.assembly.get? id = some f ↔ before.assembly.get? id = some f)
  table : ∀ other, other ≠ name → after.functions.find? other = before.functions.find? other

/-- Nothing changed but the entry function. -/
structure KeepsDefined (before after : Lowering) : Prop where
  entry : after.entry = before.entry
  table : after.functions = before.functions
  others : ∀ id, id ≠ before.entry → after.assembly.get? id = before.assembly.get? id

/-- A definition was given up. Its name cannot be called any more, and its function is there only for the
calls that other functions make: as the declaration it was before. -/
structure Withdrawn (head : Prototype) (before after : Lowering) : Prop where
  table : after.functions.find? head.name.text = none
  bare : ∀ id f, before.assembly.get? id = some f → f.name = head.name.text →
    f = .bare head.name.text (.ofArity head.parameters.length) .external
  kept : ∀ id f, before.assembly.get? id = some f → f.name = head.name.text →
    before.assembly.CalledElsewhere id → after.assembly.get? id = some f
  removed : ∀ id f, before.assembly.get? id = some f → f.name = head.name.text →
    ¬ before.assembly.CalledElsewhere id → after.assembly.get? id = none
  unknown : (∀ id f, before.assembly.get? id = some f → f.name ≠ head.name.text) →
    after.assembly.module = before.assembly.module

/-! ### Rejected prototypes -/

theorem duplicate?_eq_none_iff (seen : List String) (names : List Name) :
    duplicate? seen names = none ↔
      (names.map Name.text).Nodup ∧ ∀ name ∈ names, name.text ∉ seen := by
  induction names generalizing seen with
  | nil => simp [duplicate?]
  | cons first rest ih =>
    rw [duplicate?]
    split
    · rename_i hSeen
      have hMem : first.text ∈ seen := List.contains_iff_mem.mp hSeen
      simp [hMem]
    · rename_i hSeen
      have hMem : first.text ∉ seen := fun hMem => hSeen (List.contains_iff_mem.mpr hMem)
      rw [ih]
      simp only [List.map_cons, List.nodup_cons, List.mem_map, List.mem_cons, forall_eq_or_imp]
      constructor
      · rintro ⟨hNodup, hNew⟩
        refine ⟨⟨?_, hNodup⟩, hMem, fun name hName hOld => hNew name hName (.inr hOld)⟩
        rintro ⟨name, hName, hEq⟩
        exact hNew name hName (.inl hEq)
      · rintro ⟨⟨hFirst, hNodup⟩, -, hNew⟩
        refine ⟨hNodup, ?_⟩
        rintro name hName (hEq | hOld)
        · exact hFirst ⟨name, hName, hEq⟩
        · exact hNew name hName hOld

section Prototype

variable {width : Nat} {state : Lowering} (h : state.Valid width)
include h

/-- The function that a prototype repeats is the one of its name. -/
theorem Valid.repeated_iff {name : String} (hName : isReserved name = false) (id : FunctionId)
    (f : Function) :
    ((state.declared? name).bind fun id => (state.assembly.get? id).map (id, ·)) = some (id, f) ↔
      state.assembly.get? id = some f ∧ f.name = name := by
  constructor
  · intro hFound
    obtain ⟨found, hDeclared, hMap⟩ := Option.bind_eq_some_iff.mp hFound
    obtain ⟨g, hGet, hEq⟩ := Option.map_eq_some_iff.mp hMap
    cases hEq
    obtain ⟨g, hGet', hEq⟩ := h.declared?_eq_some hName hDeclared
    rw [hGet] at hGet'
    cases hGet'
    exact ⟨hGet, hEq⟩
  · rintro ⟨hGet, hEq⟩
    cases hDeclared : state.declared? name with
    | none => exact absurd hEq (h.declared?_eq_none hDeclared hGet)
    | some found =>
      obtain ⟨g, hFound, hFoundName⟩ := h.declared?_eq_some hName hDeclared
      obtain rfl := h.unique _ _ _ _ hFound hGet (hFoundName.trans hEq.symm)
      rw [Option.bind_some, hGet]
      rfl

theorem Valid.repeated_eq_none_iff {name : String} (hName : isReserved name = false) :
    ((state.declared? name).bind fun id => (state.assembly.get? id).map (id, ·)) = none ↔
      ∀ id f, state.assembly.get? id = some f → f.name ≠ name := by
  constructor
  · intro hNone id f hGet hEq
    rw [(h.repeated_iff hName id f).mpr ⟨hGet, hEq⟩] at hNone
    cases hNone
  · intro hNew
    rw [Option.eq_none_iff_forall_ne_some]
    rintro ⟨id, f⟩ hFound
    obtain ⟨hGet, hEq⟩ := (h.repeated_iff hName id f).mp hFound
    exact hNew id f hGet hEq

theorem Valid.prototype_of_known {head : Prototype} (hReserved : isReserved head.name.text = false)
    (hDuplicate : duplicate? [] head.parameters = none) {id : FunctionId} {f : Function}
    (hGet : state.assembly.get? id = some f) (hName : f.name = head.name.text) :
    state.prototype head =
      if f.isDeclaration = false then .error ⟨.alreadyDefined head.name.text, head.name.span⟩
      else if f.signature.parameters.length ≠ head.parameters.length then
        .error ⟨.arityChanged head.name.text f.signature.parameters.length head.parameters.length,
          head.span⟩
      else .ok (id, { state with functions := state.functions.insert head.name.text id }, []) := by
  have hRepeated := (h.repeated_iff hReserved id f).mpr ⟨hGet, hName⟩
  rw [Lowering.prototype]
  simp only [hReserved, hDuplicate, hRepeated, Bool.false_eq_true, if_false, Bool.not_eq_true']

theorem Valid.prototype_of_new {head : Prototype} (hReserved : isReserved head.name.text = false)
    (hDuplicate : duplicate? [] head.parameters = none)
    (hNew : ∀ id f, state.assembly.get? id = some f → f.name ≠ head.name.text) :
    state.prototype head = .ok (state.assembly.next,
      { state with
        assembly := state.assembly.declare head.name.text (.ofArity head.parameters.length) .external
        functions := state.functions.insert head.name.text state.assembly.next },
      [.declared head.name.text head.parameters.length]) := by
  have hRepeated := (h.repeated_eq_none_iff hReserved).mpr hNew
  rw [Lowering.prototype]
  simp only [hReserved, hDuplicate, hRepeated, Bool.false_eq_true, if_false]

theorem Valid.prototype_error_iff (head : Prototype) :
    (∃ problem, state.prototype head = .error problem) ↔ state.Rejects head := by
  have hNodup := duplicate?_eq_none_iff [] head.parameters
  simp only [List.not_mem_nil, not_false_eq_true, implies_true, and_true] at hNodup
  cases hReserved : isReserved head.name.text with
  | true =>
    have hMem := (mem_reserved_iff head.name.text).mpr hReserved
    refine ⟨fun _ => .reserved hMem, fun _ => ⟨⟨.reservedName head.name.text, head.name.span⟩, ?_⟩⟩
    rw [Lowering.prototype]
    simp only [hReserved, if_true]
  | false =>
    cases hDuplicate : duplicate? [] head.parameters with
    | some parameter =>
      refine ⟨fun _ => .repeated ?_, fun _ => ?_⟩
      · rw [← hNodup, hDuplicate]
        exact Option.some_ne_none parameter
      · refine ⟨⟨.duplicateParameter parameter.text head.name.text, parameter.span⟩, ?_⟩
        rw [Lowering.prototype]
        simp only [hReserved, hDuplicate, Bool.false_eq_true, if_false]
    | none =>
      constructor
      · rintro ⟨problem, hError⟩
        by_cases hKnown : ∃ id f, state.assembly.get? id = some f ∧ f.name = head.name.text
        · obtain ⟨id, f, hGet, hName⟩ := hKnown
          rw [h.prototype_of_known hReserved hDuplicate hGet hName] at hError
          split at hError
          · rename_i hBody
            exact .defined id f hGet hName (f.isDeclaration_eq_false_iff.mp hBody)
          · split at hError
            · rename_i hArity
              exact .arity id f hGet hName hArity
            · cases hError
        · have hNew : ∀ id f, state.assembly.get? id = some f → f.name ≠ head.name.text :=
            fun id f hGet hName => hKnown ⟨id, f, hGet, hName⟩
          rw [h.prototype_of_new hReserved hDuplicate hNew] at hError
          cases hError
      · intro hRejects
        cases hRejects with
        | reserved h => exact absurd ((mem_reserved_iff _).mp h) (by simp [hReserved])
        | repeated h => exact absurd (hNodup.mp hDuplicate) h
        | defined id f hGet hName hBody =>
          rw [h.prototype_of_known hReserved hDuplicate hGet hName,
            if_pos (f.isDeclaration_eq_false_iff.mpr hBody)]
          exact ⟨_, rfl⟩
        | arity id f hGet hName hArity =>
          rw [h.prototype_of_known hReserved hDuplicate hGet hName, if_pos hArity]
          split
          · exact ⟨_, rfl⟩
          · exact ⟨_, rfl⟩

/-- The two ways to accept a prototype: it repeats a declaration, or its name is new. -/
theorem Valid.accepted {head : Prototype} {id : FunctionId} {declared : Lowering} {events : List Event}
    (hOk : state.prototype head = .ok (id, declared, events)) :
    (state.assembly.get? id = some (.bare head.name.text (.ofArity head.parameters.length) .external) ∧
      declared = { state with functions := state.functions.insert head.name.text id } ∧ events = []) ∨
    ((∀ key f, state.assembly.get? key = some f → f.name ≠ head.name.text) ∧ id = state.assembly.next ∧
      declared = { state with
        assembly := state.assembly.declare head.name.text (.ofArity head.parameters.length) .external
        functions := state.functions.insert head.name.text state.assembly.next } ∧
      events = [.declared head.name.text head.parameters.length]) := by
  obtain ⟨-, hReserved, hBare⟩ := h.prototype hOk
  have hDuplicate : duplicate? [] head.parameters = none := by
    rw [Lowering.prototype] at hOk
    simp only [hReserved, Bool.false_eq_true, if_false] at hOk
    split at hOk
    · cases hOk
    · rename_i hDuplicate
      exact hDuplicate
  by_cases hKnown : ∃ id f, state.assembly.get? id = some f ∧ f.name = head.name.text
  · obtain ⟨found, f, hGet, hName⟩ := hKnown
    rw [h.prototype_of_known hReserved hDuplicate hGet hName] at hOk
    split at hOk
    · cases hOk
    · split at hOk
      · cases hOk
      · cases hOk
        exact .inl ⟨hBare, rfl, rfl⟩
  · have hNew : ∀ key f, state.assembly.get? key = some f → f.name ≠ head.name.text :=
      fun key f hGet hName => hKnown ⟨key, f, hGet, hName⟩
    rw [h.prototype_of_new hReserved hDuplicate hNew] at hOk
    cases hOk
    exact .inr ⟨hNew, rfl, rfl, rfl⟩

end Prototype

/-! ### Functions of other names -/

namespace KeepsOthers

theorem refl (name : String) (state : Lowering) : KeepsOthers name state state :=
  ⟨rfl, rfl, rfl, rfl, fun _ _ _ => Iff.rfl, fun _ _ => rfl⟩

theorem trans {name : String} {first second third : Lowering} (h : KeepsOthers name first second)
    (hNext : KeepsOthers name second third) : KeepsOthers name first third where
  entry := hNext.entry.trans h.entry
  insertion := hNext.insertion.trans h.insertion
  scope := hNext.scope.trans h.scope
  main := by
    rw [← h.main, ← h.entry]
    exact hNext.main
  others id f hName := (hNext.others id f hName).trans (h.others id f hName)
  table other hOther := (hNext.table other hOther).trans (h.table other hOther)

/-- One function changed, and it had and has the name, if it is there. -/
theorem of_one {name : String} {before : Lowering} {id : FunctionId} (hId : id ≠ before.entry)
    {assembly : Assembly} {functions : NameTable FunctionId}
    (hBefore : ∀ f, before.assembly.get? id = some f → f.name = name)
    (hAfter : ∀ f, assembly.get? id = some f → f.name = name)
    (hOthers : ∀ key, key ≠ id → assembly.get? key = before.assembly.get? key)
    (hTable : ∀ other, other ≠ name → functions.find? other = before.functions.find? other) :
    KeepsOthers name before { before with assembly, functions } where
  entry := rfl
  insertion := rfl
  scope := rfl
  main := hOthers _ hId.symm
  others key f hName := by
    by_cases hKey : key = id
    · subst hKey
      exact ⟨fun hFound => absurd (hAfter f hFound) hName, fun hFound => absurd (hBefore f hFound) hName⟩
    · rw [hOthers key hKey]
  table := hTable

end KeepsOthers

theorem find?_insert_of_ne {name other : String} (h : other ≠ name) (functions : NameTable FunctionId)
    (id : FunctionId) : (functions.insert name id).find? other = functions.find? other := by
  rw [NameTable.find?_insert, if_neg h]

/-- A body that has a value leaves its head as it was. -/
theorem lowerBody_head {width : Nat} {state : Lowering} {head : Prototype} {e : Expr}
    (hWidth : e.widest ≤ width) {value : Operand} {final : Body}
    (hFinal : state.lowerBody head e = (some value, final)) :
    final.draft.function.name = head.name.text ∧
      final.draft.function.signature = .ofArity head.parameters.length ∧
      final.draft.function.isDeclaration = false := by
  have hGrows := (definitionBody_opened (callees_agree width state) _ _ _ hWidth hFinal).1
  have hOpened := (opened_ready (state.context width) head.name.text head.parameters.length).draft.size_pos
  have hSize := Nat.lt_of_lt_of_le hOpened hGrows.blocks
  exact ⟨hGrows.name, hGrows.signature, (Function.isDeclaration_eq_false_iff _).mpr hSize⟩

section Others

variable {width : Nat} {state : Lowering} (h : state.Valid width)
include h

theorem Valid.prototype_keepsOthers {head : Prototype} {id : FunctionId} {declared : Lowering}
    {events : List Event} (hOk : state.prototype head = .ok (id, declared, events)) :
    KeepsOthers head.name.text state declared := by
  rcases h.accepted hOk with ⟨hGet, rfl, -⟩ | ⟨-, rfl, rfl, -⟩
  · obtain ⟨-, hReserved, -⟩ := h.prototype hOk
    have hName : ∀ f, state.assembly.get? id = some f → f.name = head.name.text := by
      intro f hFound
      rw [hGet] at hFound
      cases hFound
      rfl
    have hEntry := (h.written_of_name hGet hReserved).2.1
    exact .of_one hEntry hName hName (fun _ _ => rfl) fun other hOther => find?_insert_of_ne hOther _ _
  · have hEntry : state.assembly.next ≠ state.entry := by
      intro hEq
      obtain ⟨f, _, hFound, _⟩ := h.entry
      rw [← hEq, h.next_none] at hFound
      cases hFound
    refine .of_one hEntry ?_ ?_ ?_ fun other hOther => find?_insert_of_ne hOther _ _
    · intro f hFound
      rw [h.next_none] at hFound
      cases hFound
    · intro f hFound
      rw [Assembly.get?_declare, if_pos rfl] at hFound
      cases hFound
      rfl
    · intro key hKey
      rw [Assembly.get?_declare, if_neg hKey]

theorem Valid.put_keepsOthers {id : FunctionId} {f f' : Function} (hGet : state.assembly.get? id = some f)
    (hReserved : isReserved f.name = false) (hName : f'.name = f.name) :
    KeepsOthers f.name state { state with assembly := state.assembly.put id f' } := by
  refine .of_one (h.written_of_name hGet hReserved).2.1 ?_ ?_ ?_ fun _ _ => rfl
  · intro g hFound
    rw [hGet] at hFound
    cases hFound
    rfl
  · intro g hFound
    rw [Assembly.get?_put, if_pos rfl] at hFound
    cases hFound
    exact hName
  · intro key hKey
    rw [Assembly.get?_put, if_neg hKey]

theorem Valid.discard_keepsOthers {id : FunctionId} {f : Function} (hGet : state.assembly.get? id = some f)
    (hReserved : isReserved f.name = false) :
    KeepsOthers f.name state { state with
      assembly := state.assembly.discard id f
      functions := state.functions.erase f.name } := by
  refine .of_one (h.written_of_name hGet hReserved).2.1 ?_ ?_ ?_ ?_
  · intro g hFound
    rw [hGet] at hFound
    cases hFound
    rfl
  · intro g hFound
    rw [Assembly.get?_discard, if_pos rfl] at hFound
    split at hFound
    · cases hFound
      rfl
    · cases hFound
  · intro key hKey
    rw [Assembly.get?_discard, if_neg hKey]
  · intro other hOther
    rw [NameTable.find?_erase, if_neg hOther]

theorem Valid.definition_keepsOthers (head : Prototype) {e : Expr} (hWidth : e.widest ≤ width) :
    KeepsOthers head.name.text state (state.definition head e).1 := by
  rcases h.definition_cases head e with ⟨problem, -, hEq⟩ | ⟨id, declared, events, hOk, hCases⟩
  · rw [hEq]
    exact .refl _ _
  · refine (h.prototype_keepsOthers hOk).trans ?_
    obtain ⟨hDeclared, hReserved, hGet⟩ := h.prototype hOk
    rcases hCases with ⟨final, -, hEq⟩ | ⟨value, final, hFinal, hEq⟩
    · rw [hEq]
      exact hDeclared.discard_keepsOthers hGet hReserved
    · rw [hEq]
      obtain ⟨hName, -, -⟩ := lowerBody_head hWidth hFinal
      exact hDeclared.put_keepsOthers hGet hReserved hName

theorem Valid.topLevel_keepsDefined (e : Expr) : KeepsDefined state (state.topLevel e).1 := by
  obtain ⟨f, -, hGet, -⟩ := h.entry
  rw [Lowering.topLevel, hGet]
  refine ⟨rfl, rfl, ?_⟩
  intro id hId
  exact (Assembly.get?_put _ _ _ _).trans (if_neg hId)

end Others

/-! ### Bodies are final -/

section Final

variable {width : Nat} {state : Lowering}

theorem Valid.item_of_rejects (h : state.Valid width) {head : Prototype} (hRejects : state.Rejects head)
    (span : Span) (e : Expr) : ∃ problem,
      state.item (.declaration span head) = (state, [.diagnostic problem]) ∧
      state.item (.definition span head e) = (state, [.diagnostic problem]) := by
  obtain ⟨problem, hError⟩ := (h.prototype_error_iff head).mpr hRejects
  refine ⟨problem, ?_, ?_⟩
  · rw [Lowering.item, hError]
  · rw [Lowering.item, Lowering.definition, hError]

/-- A second definition of the name is rejected, and no other item touches the function. -/
theorem Valid.item_get?_of_body (h : state.Valid width) {item : Item} (hWidth : item.widest ≤ width)
    {id : FunctionId} {f : Function} (hGet : state.assembly.get? id = some f) (hId : id ≠ state.entry)
    (hBody : 0 < f.blocks.size) : (state.item item).1.assembly.get? id = some f := by
  cases item with
  | declaration span head =>
    by_cases hName : f.name = head.name.text
    · obtain ⟨problem, hEq, -⟩ := h.item_of_rejects (.defined id f hGet hName hBody) span (.int span 0)
      rw [hEq]
      exact hGet
    · rw [Lowering.item]
      split
      · exact hGet
      · rename_i hOk
        exact ((h.prototype_keepsOthers hOk).others id f hName).mpr hGet
  | definition span head e =>
    by_cases hName : f.name = head.name.text
    · obtain ⟨problem, -, hEq⟩ := h.item_of_rejects (.defined id f hGet hName hBody) span e
      rw [hEq]
      exact hGet
    · exact ((h.definition_keepsOthers head hWidth).others id f hName).mpr hGet
  | expression e => exact ((h.topLevel_keepsDefined e).others id hId).trans hGet

theorem Orderly.finish_get?_of_body (program : List Item) {state : Lowering} (h : state.Orderly width)
    (hWidth : ∀ item ∈ program, item.widest ≤ width) {id : FunctionId} {f : Function}
    (hGet : state.assembly.get? id = some f) (hId : id ≠ state.entry) (hBody : 0 < f.blocks.size) :
    (state.items program).1.finish.get? id = some f := by
  induction program generalizing state with
  | nil => exact (h.valid.get?_finish hId).trans hGet
  | cons first rest ih =>
    have hFirst := h.item (hWidth first List.mem_cons_self)
    have hKept := h.valid.item_get?_of_body (hWidth first List.mem_cons_self) hGet hId hBody
    apply ih hFirst.orderly (fun item hItem => hWidth item (List.mem_cons_of_mem _ hItem)) hKept
    rw [hFirst.entry]
    exact hId

theorem Valid.table_of_accepted (h : state.Valid width) {head : Prototype} {id : FunctionId}
    {declared : Lowering} {events : List Event}
    (hOk : state.prototype head = .ok (id, declared, events)) :
    declared.functions.find? head.name.text = some id := by
  rcases h.accepted hOk with ⟨-, rfl, -⟩ | ⟨-, rfl, rfl, -⟩
  · exact (NameTable.find?_insert _ _ _ _).trans (if_pos rfl)
  · exact (NameTable.find?_insert _ _ _ _).trans (if_pos rfl)

/-- What is there after a definition whose body has a value. -/
theorem Valid.exists_of_put (h : state.Valid width) {head : Prototype} {e : Expr} (hWidth : e.widest ≤ width)
    {id : FunctionId} {declared : Lowering} {events : List Event}
    (hOk : state.prototype head = .ok (id, declared, events)) {value : Operand} {final : Body}
    (hFinal : declared.lowerBody head e = (some value, final)) {after : Lowering}
    (hAfter : after = { declared with assembly := declared.assembly.put id final.draft.function }) :
    ∃ f, after.functions.find? head.name.text = some id ∧ after.assembly.get? id = some f ∧
      f.name = head.name.text ∧ f.signature = .ofArity head.parameters.length ∧ 0 < f.blocks.size := by
  obtain ⟨hName, hSignature, hBody⟩ := lowerBody_head hWidth hFinal
  have hTable := h.table_of_accepted hOk
  rw [hAfter]
  exact ⟨final.draft.function, hTable, (Assembly.get?_put _ _ _ _).trans (if_pos rfl), hName, hSignature,
    (Function.isDeclaration_eq_false_iff _).mp hBody⟩

end Final

/-! ### Definitions that are withdrawn -/

section Withdrawal

variable {width : Nat} {state : Lowering}

/-- Calls lead to functions of the module. -/
theorem Valid.exists_of_calls (h : state.Valid width) {id callee : FunctionId} {f : Function}
    (hGet : state.assembly.get? id = some f) {instruction : Instruction} (hMem : instruction ∈ f.code)
    (hCalls : instruction.calls callee = true) : ∃ g, state.assembly.get? callee = some g := by
  have hStaged : ∃ plan, f.Staged (state.context width) plan := by
    by_cases hHost : id = ⟨0⟩
    · subst hHost
      rw [h.host] at hGet
      cases hGet
      cases hMem
    · by_cases hEntry : id = state.entry
      · subst hEntry
        obtain ⟨entry, plan, hFound, -, -, -, hReady, -⟩ := h.entry
        rw [hGet] at hFound
        cases hFound
        exact ⟨plan, hReady.draft.staged⟩
      · rcases (h.written id f hGet hHost hEntry).completed with hBare | ⟨-, plan, hStaged, -⟩
        · rw [hBare] at hMem
          cases hMem
        · exact ⟨plan, hStaged⟩
  obtain ⟨plan, hStaged⟩ := hStaged
  obtain ⟨signature, hSignature⟩ := hStaged.signature_of_calls hMem hCalls
  obtain ⟨g, hFound, -⟩ := Option.map_eq_some_iff.mp hSignature
  exact ⟨g, hFound⟩

theorem Valid.isReferenced_put_iff (h : state.Valid width) (id : FunctionId) (name : String)
    (signature : Signature) (linkage : Linkage) :
    (state.assembly.put id (.bare name signature linkage)).module.isReferenced id = true ↔
      state.assembly.CalledElsewhere id := by
  have hSorted : (state.assembly.put id (.bare name signature linkage)).module.functions.Sorted :=
    h.sorted.insert _ _
  have hPut := fun key => state.assembly.get?_put id key (.bare name signature linkage)
  rw [Assembly.calledElsewhere_iff]
  simp only [Module.isReferenced, List.any_eq_true, hSorted.mem_values_iff]
  constructor
  · rintro ⟨f, ⟨other, hFound⟩, instruction, hMem, hCalls⟩
    rw [show IdMap.get? _ other = _ from hPut other] at hFound
    split at hFound
    · cases hFound
      cases hMem
    · rename_i hNe
      exact ⟨other, f, hNe, hFound, instruction, hMem, hCalls⟩
  · rintro ⟨other, f, hNe, hFound, instruction, hMem, hCalls⟩
    exact ⟨f, ⟨other, (hPut other).trans ((if_neg hNe).trans hFound)⟩, instruction, hMem, hCalls⟩

theorem Valid.get?_discard_of_called (h : state.Valid width) {id : FunctionId}
    (hCalled : state.assembly.CalledElsewhere id) (name : String) (signature : Signature)
    (linkage : Linkage) :
    (state.assembly.discard id (.bare name signature linkage)).get? id =
      some (.bare name signature linkage) := by
  rw [Assembly.get?_discard, if_pos rfl, Function.withoutBody_bare,
    if_pos ((h.isReferenced_put_iff id name signature linkage).mpr hCalled)]

theorem Valid.get?_discard_of_free (h : state.Valid width) {id : FunctionId}
    (hFree : ¬ state.assembly.CalledElsewhere id) (name : String) (signature : Signature)
    (linkage : Linkage) :
    (state.assembly.discard id (.bare name signature linkage)).get? id = none := by
  rw [Assembly.get?_discard, if_pos rfl, Function.withoutBody_bare,
    if_neg (mt (h.isReferenced_put_iff id name signature linkage).mp hFree)]

theorem Valid.withdrawn (h : state.Valid width) {head : Prototype} {id : FunctionId} {declared : Lowering}
    {events : List Event} (hOk : state.prototype head = .ok (id, declared, events)) :
    Withdrawn head state { declared with
      assembly := declared.assembly.discard id
        (.bare head.name.text (.ofArity head.parameters.length) .external)
      functions := declared.functions.erase head.name.text } := by
  obtain ⟨hDeclared, hReserved, hGet⟩ := h.prototype hOk
  have hDiscarded := hDeclared.discard hGet hReserved
  have hTable := (NameTable.find?_erase declared.functions head.name.text head.name.text).trans (if_pos rfl)
  rcases h.accepted hOk with ⟨hBare, rfl, -⟩ | ⟨hNew, rfl, rfl, -⟩
  · have hOnly : ∀ key f, state.assembly.get? key = some f → f.name = head.name.text →
        key = id ∧ f = .bare head.name.text (.ofArity head.parameters.length) .external := by
      intro key f hFound hName
      obtain rfl := h.unique _ _ _ _ hFound hBare hName
      exact ⟨rfl, Option.some.inj (hFound.symm.trans hBare)⟩
    refine ⟨hTable, fun key f hFound hName => (hOnly key f hFound hName).2, ?_, ?_, ?_⟩
    · intro key f hFound hName hCalled
      obtain ⟨rfl, rfl⟩ := hOnly key f hFound hName
      exact hDeclared.get?_discard_of_called hCalled _ _ _
    · intro key f hFound hName hFree
      obtain ⟨rfl, rfl⟩ := hOnly key f hFound hName
      exact hDeclared.get?_discard_of_free hFree _ _ _
    · intro hNone
      exact absurd rfl (hNone id _ hBare)
  · refine ⟨hTable, fun key f hFound hName => absurd hName (hNew key f hFound),
      fun key f hFound hName => absurd hName (hNew key f hFound),
      fun key f hFound hName => absurd hName (hNew key f hFound), fun _ => ?_⟩
    have hDeclare := state.assembly.get?_declare head.name.text (.ofArity head.parameters.length) .external
    -- An id that was never given out has no calls.
    have hFree : ¬ (state.assembly.declare head.name.text (.ofArity head.parameters.length)
        .external).CalledElsewhere state.assembly.next := by
      rw [Assembly.calledElsewhere_iff]
      rintro ⟨other, f, hNe, hFound, instruction, hMem, hCalls⟩
      rw [hDeclare, if_neg hNe] at hFound
      obtain ⟨g, hNext⟩ := h.exists_of_calls hFound hMem hCalls
      rw [h.next_none] at hNext
      cases hNext
    have hSame : ∀ key, ((state.assembly.declare head.name.text (.ofArity head.parameters.length)
        .external).discard state.assembly.next
          (.bare head.name.text (.ofArity head.parameters.length) .external)).get? key =
        state.assembly.get? key := by
      intro key
      by_cases hKey : key = state.assembly.next
      · subst hKey
        exact (hDeclared.get?_discard_of_free hFree _ _ _).trans h.next_none.symm
      · rw [Assembly.get?_discard, if_neg hKey, hDeclare, if_neg hKey]
    have hFunctions := hDiscarded.sorted.ext h.sorted hSame
    rw [Assembly.discard] at hFunctions ⊢
    split at hFunctions
    · rename_i hReferenced
      rw [if_pos hReferenced]
      exact congrArg (Module.mk _) hFunctions
    · rename_i hReferenced
      rw [if_neg hReferenced]
      exact congrArg (Module.mk _) hFunctions

end Withdrawal

end Lowering
end Slate
