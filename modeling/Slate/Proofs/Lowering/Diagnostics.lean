import Slate.Proofs.Lowering.Noted
import Slate.Proofs.Lowering.Ownership

/-! # The reports of a program

Lowering reports what the analysis of the tree finds, in the same order. After every item the analysis knows
the functions of the module by name, with their bodies and whether they are called, and the variables of the
entry function; `Analyzed` is that relation, and each item keeps it.
-/

namespace Slate
set_option autoImplicit false

open Analysis (Overview Known Shape)

def Assembly.Calls (assembly : Assembly) (id : FunctionId) : Prop :=
  ∃ key f, assembly.get? key = some f ∧ f.Calls id

/-- The calls of a module of which one function has changed. -/
theorem Assembly.calls_iff_of_one {before after : Assembly} {id callee : FunctionId} {new : Prop}
    (hOthers : ∀ key, key ≠ id → after.get? key = before.get? key)
    (hOne : (∃ f, after.get? id = some f ∧ f.Calls callee) ↔
      (∃ f, before.get? id = some f ∧ f.Calls callee) ∨ new) :
    after.Calls callee ↔ before.Calls callee ∨ new := by
  constructor
  · rintro ⟨key, f, hGet, hCalls⟩
    by_cases hKey : key = id
    · subst hKey
      rcases hOne.mp ⟨f, hGet, hCalls⟩ with ⟨g, hOld, hCalls⟩ | hNew
      · exact .inl ⟨key, g, hOld, hCalls⟩
      · exact .inr hNew
    · exact .inl ⟨key, f, (hOthers key hKey).symm.trans hGet, hCalls⟩
  · rintro (⟨key, f, hGet, hCalls⟩ | hNew)
    · by_cases hKey : key = id
      · subst hKey
        obtain ⟨g, hGet', hCalls'⟩ := hOne.mpr (.inl ⟨f, hGet, hCalls⟩)
        exact ⟨key, g, hGet', hCalls'⟩
      · exact ⟨key, f, (hOthers key hKey).trans hGet, hCalls⟩
    · obtain ⟨g, hGet, hCalls⟩ := hOne.mpr (.inr hNew)
      exact ⟨id, g, hGet, hCalls⟩

/-- A function that changes without having calls before or after. -/
theorem Assembly.calls_iff_of_none {before after : Assembly} {id : FunctionId}
    (hOthers : ∀ key, key ≠ id → after.get? key = before.get? key)
    (hBefore : ∀ f callee, before.get? id = some f → ¬ f.Calls callee)
    (hAfter : ∀ f callee, after.get? id = some f → ¬ f.Calls callee) (callee : FunctionId) :
    after.Calls callee ↔ before.Calls callee := by
  refine (calls_iff_of_one hOthers ?_).trans (or_iff_left not_false)
  refine iff_of_false ?_ ?_
  · rintro ⟨f, hGet, hCalls⟩
    exact hAfter f callee hGet hCalls
  · rintro (⟨f, hGet, hCalls⟩ | hFalse)
    · exact hBefore f callee hGet hCalls
    · exact hFalse

theorem Function.not_calls_bare (name : String) (signature : Signature) (linkage : Linkage)
    (id : FunctionId) : ¬ (Function.bare name signature linkage).Calls id := by
  rintro ⟨instruction, hMem, -⟩
  cases hMem

theorem Assembly.calls_declare {assembly : Assembly} (hNext : assembly.get? assembly.next = none)
    (name : String) (signature : Signature) (linkage : Linkage) (callee : FunctionId) :
    (assembly.declare name signature linkage).Calls callee ↔ assembly.Calls callee := by
  have hDeclare := assembly.get?_declare name signature linkage
  refine calls_iff_of_none (fun key hKey => (hDeclare key).trans (if_neg hKey)) ?_ ?_ callee
  · intro f callee hFound
    rw [hNext] at hFound
    cases hFound
  · intro f callee hFound
    rw [hDeclare, if_pos rfl] at hFound
    cases hFound
    exact Function.not_calls_bare _ _ _ _

theorem Assembly.calls_discard {assembly : Assembly} {id : FunctionId} {name : String}
    {signature : Signature} {linkage : Linkage}
    (hGet : assembly.get? id = some (.bare name signature linkage)) (callee : FunctionId) :
    (assembly.discard id (.bare name signature linkage)).Calls callee ↔ assembly.Calls callee := by
  have hDiscard := fun key => assembly.get?_discard id key (.bare name signature linkage)
  refine calls_iff_of_none (fun key hKey => (hDiscard key).trans (if_neg hKey)) ?_ ?_ callee
  · intro f callee hFound
    rw [hGet] at hFound
    cases hFound
    exact Function.not_calls_bare _ _ _ _
  · intro f callee hFound
    rw [hDiscard, if_pos rfl, Function.withoutBody_bare] at hFound
    split at hFound
    · cases hFound
      exact Function.not_calls_bare _ _ _ _
    · cases hFound

namespace Lowering

/-- The first repeated parameter is the same, however it is searched for. -/
theorem repeated?_eq (names : List Name) : Analysis.repeated? names = duplicate? [] names := by
  have hGeneral : ∀ (rest earlier : List Name) (seen : List String), names = earlier ++ rest →
      (∀ text, text ∈ seen ↔ text ∈ earlier.map Name.text) →
      ((rest.zipIdx earlier.length).find? fun entry =>
        (names.take entry.2).any fun name => decide (name.text = entry.1.text)).map Prod.fst =
          duplicate? seen rest := by
    intro rest
    induction rest with
    | nil => intros; rfl
    | cons first rest ih =>
      intro earlier seen hNames hSeen
      have hAny : ((names.take earlier.length).any fun name => decide (name.text = first.text)) =
          seen.contains first.text := by
        rw [hNames, List.take_left, Bool.eq_iff_iff, List.contains_iff_mem, hSeen]
        simp [List.any_eq_true, List.mem_map]
      rw [List.zipIdx_cons, List.find?_cons, duplicate?]
      cases hContains : seen.contains first.text with
      | true =>
        rw [hContains] at hAny
        simp only [hAny]
        rfl
      | false =>
        rw [hContains] at hAny
        simp only [hAny, Bool.false_eq_true, if_false]
        have hRest := ih (earlier ++ [first]) (first.text :: seen) (by simp [hNames]) (by
          intro text
          simp [hSeen, or_comm])
        rw [List.length_append, List.length_singleton] at hRest
        exact hRest
  exact hGeneral names [] [] rfl fun text => by simp

/-- What the analysis knows of a name is so. -/
structure AnalyzedName (state : Lowering) (overview : Overview) (name : String) : Prop where
  known : ∀ id f, state.assembly.get? id = some f → f.name = name →
    ∃ known, overview.functions.find? name = some known ∧ known.toShape = shapeOf f.signature ∧
      known.hasBody = !f.isDeclaration
  unknown : (∀ id f, state.assembly.get? id = some f → f.name ≠ name) →
    overview.functions.find? name = none
  called : name ∈ overview.called ↔
    ∃ id f, state.assembly.get? id = some f ∧ f.name = name ∧ state.assembly.Calls id

structure Analyzed (state : Lowering) (overview : Overview) : Prop where
  names : ∀ name, isReserved name = false → AnalyzedName state overview name
  shapes : ∀ name, overview.shape? name = state.callees.shapes name
  main : state.scope.entries.map Prod.fst = (Analysis.declaredNames overview.main).reverse

theorem start_analyzed (module : String) : Analyzed (start module) .start where
  names name hReserved := by
    have hNone : ∀ id f, (start module).assembly.get? id = some f → f.name ≠ name := by
      rintro id f hFound rfl
      rw [get?_start] at hFound
      split at hFound
      · cases hFound
        revert hReserved
        decide
      · split at hFound
        · cases hFound
          revert hReserved
          decide
        · cases hFound
    have hPuts : name ≠ "puts" := by
      rintro rfl
      revert hReserved
      decide
    refine ⟨fun id f hFound hName => absurd hName (hNone id f hFound), fun _ => ?_, ?_⟩
    · rw [Overview.start, NameTable.find?_insert, if_neg hPuts, NameTable.find?_empty]
    · constructor
      · intro hCalled
        cases hCalled
      · rintro ⟨id, f, hFound, hName, -⟩
        exact absurd hName (hNone id f hFound)
  shapes name := by
    rw [Overview.shape?, Callees.shapes, callees, start_eq, Overview.start, NameTable.find?_insert,
      NameTable.find?_insert]
    by_cases hName : name = "puts"
    · rw [if_pos hName, if_pos hName]
      rfl
    · rw [if_neg hName, if_neg hName, NameTable.find?_empty, NameTable.find?_empty]
      rfl
  main := by
    rw [start_eq]
    rfl

/-! ## Prototypes -/

section Prototype

variable {width : Nat} {state : Lowering} {overview : Overview}

theorem Valid.shapeOf_signature (h : state.Valid width) {id : FunctionId} {f : Function}
    (hGet : state.assembly.get? id = some f) (hName : isReserved f.name = false) :
    shapeOf f.signature = { arity := f.signature.parameters.length } := by
  have hSignature := (h.written_of_name hGet hName).2.2.signature
  rw [hSignature, shapeOf_ofArity, Signature.ofArity, List.length_replicate]

/-- Both sides find the same problem with a prototype, or none. -/
theorem Analyzed.prototype_iff (h : Analyzed state overview) (hValid : state.Valid width) (head : Prototype)
    (problem : Diagnostic) :
    state.prototype head = .error problem ↔ overview.problem? head = some problem := by
  rw [Overview.problem?]
  cases hReserved : isReserved head.name.text with
  | true =>
    have hMem := (mem_reserved_iff head.name.text).mpr hReserved
    rw [prototype]
    simp [hReserved, hMem]
  | false =>
    have hMem : head.name.text ∉ Analysis.reserved := by
      rw [mem_reserved_iff, hReserved]
      exact Bool.false_ne_true
    simp only [hMem, if_false, repeated?_eq]
    cases hDuplicate : duplicate? [] head.parameters with
    | some parameter =>
      rw [prototype]
      simp [hReserved, hDuplicate]
    | none =>
      by_cases hKnown : ∃ id f, state.assembly.get? id = some f ∧ f.name = head.name.text
      · obtain ⟨id, f, hGet, hName⟩ := hKnown
        obtain ⟨known, hFind, hShape, hBody⟩ := (h.names _ hReserved).known id f hGet hName
        have hArity : known.arity = f.signature.parameters.length := by
          rw [hValid.shapeOf_signature hGet (hName ▸ hReserved)] at hShape
          exact congrArg Shape.arity hShape
        rw [hValid.prototype_of_known hReserved hDuplicate hGet hName]
        simp only [hFind, hBody, hArity, Bool.not_eq_true']
        cases hDeclaration : f.isDeclaration with
        | false => simp
        | true =>
          by_cases hSame : f.signature.parameters.length = head.parameters.length
          · simp [hSame]
          · simp [hSame]
      · have hNew : ∀ id f, state.assembly.get? id = some f → f.name ≠ head.name.text :=
          fun id f hGet hName => hKnown ⟨id, f, hGet, hName⟩
        rw [hValid.prototype_of_new hReserved hDuplicate hNew]
        simp [(h.names _ hReserved).unknown hNew]

end Prototype

/-! ## Names that an item does not touch -/

section Kept

variable {width : Nat} {before after : Lowering} {overview overview' : Overview} {calls : List String}

theorem symbolOf_of_not_reserved {name : String} (h : isReserved name = false) : symbolOf name = name := by
  apply symbolOf_of_ne
  rintro rfl
  exact absurd h (by decide)

theorem Orderly.exists_of_callee (h : before.Orderly width) {name : String} {callee : Callee}
    (hCallee : before.callees name = some callee) :
    ∃ f, before.assembly.get? callee.id = some f ∧ f.name = symbolOf name := by
  obtain ⟨found, hFound, hRest⟩ := Option.bind_eq_some_iff.mp hCallee
  obtain ⟨f, hGet, hEq⟩ := Option.bind_eq_some_iff.mp hRest
  cases hEq
  exact h.consistent.table name found hFound

/-- Only the name of a function leads to it, unless it is the host's. -/
theorem Orderly.eq_of_callee (h : before.Orderly width) {name : String} {callee : Callee}
    (hCallee : before.callees name = some callee) {f : Function}
    (hGet : before.assembly.get? callee.id = some f) (hReserved : isReserved f.name = false) :
    name = f.name := by
  obtain ⟨g, hFound, hSymbol⟩ := h.exists_of_callee hCallee
  rw [hGet] at hFound
  cases hFound
  by_cases hPuts : name = "puts"
  · rw [hSymbol, hPuts] at hReserved
    exact absurd hReserved (by decide)
  · rw [hSymbol, symbolOf_of_ne hPuts]

/-- The calls of a module after calls by these names were added. -/
structure AddsCalls (before after : Lowering) (calls : List String) : Prop where
  known : ∀ name ∈ calls, ∃ callee, before.callees name = some callee
  calls_iff : ∀ id, after.assembly.Calls id ↔ before.assembly.Calls id ∨
    ∃ name ∈ calls, ∃ callee, before.callees name = some callee ∧ callee.id = id

theorem AddsCalls.nil (h : ∀ id, after.assembly.Calls id ↔ before.assembly.Calls id) :
    AddsCalls before after [] where
  known name hName := by cases hName
  calls_iff id := by simp [h id]

theorem AnalyzedName.mem_called_iff {name : String} (h : AnalyzedName before overview name)
    (hOrderly : before.Orderly width) (hReserved : isReserved name = false)
    (hCalls : AddsCalls before after calls)
    (hNames : ∀ id, (∃ f, after.assembly.get? id = some f ∧ f.name = name) ↔
      ∃ f, before.assembly.get? id = some f ∧ f.name = name) :
    name ∈ overview.called ++ calls ↔
      ∃ id f, after.assembly.get? id = some f ∧ f.name = name ∧ after.assembly.Calls id := by
  rw [List.mem_append, h.called]
  constructor
  · rintro (⟨id, f, hGet, hName, hCalled⟩ | hMem)
    · obtain ⟨g, hGet', hName'⟩ := (hNames id).mpr ⟨f, hGet, hName⟩
      exact ⟨id, g, hGet', hName', (hCalls.calls_iff id).mpr (.inl hCalled)⟩
    · obtain ⟨callee, hCallee⟩ := hCalls.known name hMem
      obtain ⟨f, hGet, hName⟩ := hOrderly.exists_of_callee hCallee
      rw [symbolOf_of_not_reserved hReserved] at hName
      obtain ⟨g, hGet', hName'⟩ := (hNames callee.id).mpr ⟨f, hGet, hName⟩
      exact ⟨callee.id, g, hGet', hName',
        (hCalls.calls_iff callee.id).mpr (.inr ⟨name, hMem, callee, hCallee, rfl⟩)⟩
  · rintro ⟨id, g, hGet', hName', hCalled⟩
    obtain ⟨f, hGet, hName⟩ := (hNames id).mp ⟨g, hGet', hName'⟩
    rcases (hCalls.calls_iff id).mp hCalled with hOld | ⟨other, hOther, callee, hCallee, rfl⟩
    · exact .inl ⟨id, f, hGet, hName, hOld⟩
    · rw [hOrderly.eq_of_callee hCallee hGet (hName ▸ hReserved), hName] at hOther
      exact .inr hOther

theorem AnalyzedName.keep {name : String} (h : AnalyzedName before overview name)
    (hOrderly : before.Orderly width) (hReserved : isReserved name = false)
    (hCalls : AddsCalls before after calls)
    (hSame : ∀ id f, f.name = name → (after.assembly.get? id = some f ↔ before.assembly.get? id = some f))
    (hFind : overview'.functions.find? name = overview.functions.find? name)
    (hCalled : overview'.called = overview.called ++ calls) : AnalyzedName after overview' name where
  known id f hGet hName := by
    rw [hFind]
    exact h.known id f ((hSame id f hName).mp hGet) hName
  unknown hNone := by
    rw [hFind]
    apply h.unknown
    intro id f hGet hName
    exact hNone id f ((hSame id f hName).mpr hGet) hName
  called := by
    rw [hCalled]
    refine h.mem_called_iff hOrderly hReserved hCalls fun id => ?_
    constructor
    · rintro ⟨f, hGet, hName⟩
      exact ⟨f, (hSame id f hName).mp hGet, hName⟩
    · rintro ⟨f, hGet, hName⟩
      exact ⟨f, (hSame id f hName).mpr hGet, hName⟩

theorem KeepsOthers.callees_eq {name other : String} (h : KeepsOthers name before after)
    (hOrderly : before.Orderly width) (hReserved : isReserved name = false) (hOther : other ≠ name) :
    after.callees other = before.callees other := by
  rw [callees, callees, h.table other hOther]
  cases hFound : before.functions.find? other with
  | none => rfl
  | some id =>
    obtain ⟨f, hGet, hSymbol⟩ := hOrderly.consistent.table other id hFound
    have hNe : f.name ≠ name := by
      rintro rfl
      by_cases hPuts : other = "puts"
      · rw [hSymbol, hPuts] at hReserved
        exact absurd hReserved (by decide)
      · rw [hSymbol, symbolOf_of_ne hPuts] at hOther
        exact hOther rfl
    change (after.assembly.get? id >>= fun f => some (Callee.mk id f.signature)) =
      (before.assembly.get? id >>= fun f => some (Callee.mk id f.signature))
    rw [hGet, (h.others id f hNe).mpr hGet]

/-- A function is called under its name. -/
theorem AnalyzedName.called_iff {name : String} (h : AnalyzedName before overview name)
    (hValid : before.Valid width) {id : FunctionId} {f : Function}
    (hGet : before.assembly.get? id = some f) (hName : f.name = name) :
    name ∈ overview.called ↔ before.assembly.Calls id := by
  rw [h.called]
  constructor
  · rintro ⟨key, g, hFound, hOther, hCalls⟩
    rw [hValid.unique _ _ _ _ hFound hGet (hOther.trans hName.symm)] at hCalls
    exact hCalls
  · intro hCalls
    exact ⟨id, f, hGet, hName, hCalls⟩

/-- The step lemma for items with a name: it is enough to look at that name. -/
theorem Analyzed.of_keepsOthers {name : String} (h : Analyzed before overview)
    (hOrderly : before.Orderly width) (hReserved : isReserved name = false)
    (hKeeps : KeepsOthers name before after) (hCalls : AddsCalls before after calls)
    (hFind : ∀ other, other ≠ name → overview'.functions.find? other = overview.functions.find? other)
    (hCalled : overview'.called = overview.called ++ calls) (hMain : overview'.main = overview.main)
    (hName : AnalyzedName after overview' name)
    (hShape : overview'.shape? name = after.callees.shapes name) : Analyzed after overview' where
  names other hOther := by
    by_cases hEq : other = name
    · rw [hEq]
      exact hName
    · refine (h.names other hOther).keep hOrderly hOther hCalls ?_ (hFind other hEq) hCalled
      rintro id f rfl
      exact hKeeps.others id f hEq
  shapes other := by
    by_cases hEq : other = name
    · rw [hEq]
      exact hShape
    · rw [Callees.shapes, hKeeps.callees_eq hOrderly hReserved hEq, Overview.shape?, hFind other hEq]
      exact h.shapes other
  main := by
    rw [hKeeps.scope, hMain]
    exact h.main

end Kept

/-! ## Items -/

section Items

variable {width : Nat} {state declared : Lowering} {overview : Overview} {head : Prototype}
  {id : FunctionId} {events : List Event}

theorem shapes_of_bound {functions : NameTable FunctionId} {assembly : Assembly} {name : String}
    {f : Function} (hFind : functions.find? name = some id) (hGet : assembly.get? id = some f)
    (entry : FunctionId) (insertion : BlockId) (scope : NameTable SlotId) :
    (Lowering.mk assembly functions entry insertion scope).callees.shapes name =
      some (shapeOf f.signature) := by
  rw [Callees.shapes, callees, hFind]
  change (assembly.get? id >>= fun f => some (Callee.mk id f.signature)).map _ = _
  rw [hGet]
  rfl

theorem Valid.accepted_calls (h : state.Valid width)
    (hOk : state.prototype head = .ok (id, declared, events)) (callee : FunctionId) :
    declared.assembly.Calls callee ↔ state.assembly.Calls callee := by
  rcases h.accepted hOk with ⟨-, rfl, -⟩ | ⟨-, rfl, rfl, -⟩
  · exact Iff.rfl
  · exact Assembly.calls_declare h.next_none _ _ _ callee

/-- The function of an accepted prototype is the only one of its name. -/
theorem Valid.eq_of_accepted (h : state.Valid width)
    (hOk : state.prototype head = .ok (id, declared, events)) {key : FunctionId} {f : Function}
    (hFound : declared.assembly.get? key = some f) (hName : f.name = head.name.text) :
    key = id ∧ f = .bare head.name.text (.ofArity head.parameters.length) .external := by
  obtain ⟨hDeclared, -, hGet⟩ := h.prototype hOk
  obtain rfl := hDeclared.unique _ _ _ _ hFound hGet hName
  exact ⟨rfl, Option.some.inj (hFound.symm.trans hGet)⟩

theorem Analyzed.accepted (h : Analyzed state overview) (hOrderly : state.Orderly width)
    (hOk : state.prototype head = .ok (id, declared, events)) :
    Analyzed declared (overview.declare head) := by
  obtain ⟨hDeclared, hReserved, hGet⟩ := hOrderly.valid.prototype hOk
  have hCalls := hOrderly.valid.accepted_calls hOk
  have hFind := NameTable.find?_insert overview.functions head.name.text
  refine h.of_keepsOthers hOrderly hReserved (hOrderly.valid.prototype_keepsOthers hOk) (.nil hCalls)
    (fun other hOther => (hFind other _).trans (if_neg hOther)) (List.append_nil _).symm rfl ?_ ?_
  · refine ⟨?_, fun hNone => absurd rfl (hNone id _ hGet), ?_⟩
    · intro key f hFound hName
      obtain ⟨rfl, rfl⟩ := hOrderly.valid.eq_of_accepted hOk hFound hName
      exact ⟨_, (hFind _ _).trans (if_pos rfl), (shapeOf_ofArity _).symm, rfl⟩
    · refine ((h.names _ hReserved).called).trans ?_
      rcases hOrderly.valid.accepted hOk with ⟨-, rfl, -⟩ | ⟨hNew, rfl, rfl, -⟩
      · exact Iff.rfl
      · -- No call can lead to an id that was not given out yet.
        refine iff_of_false ?_ ?_
        · rintro ⟨key, f, hFound, hName, -⟩
          exact hNew key f hFound hName
        · rintro ⟨key, f, hFound, hName, hCalled⟩
          obtain ⟨rfl, -⟩ := hOrderly.valid.eq_of_accepted hOk hFound hName
          obtain ⟨other, g, hOther, instruction, hMem, hInstruction⟩ := (hCalls _).mp hCalled
          obtain ⟨target, hTarget⟩ := hOrderly.valid.exists_of_calls hOther hMem hInstruction
          rw [hOrderly.valid.next_none] at hTarget
          cases hTarget
  · rw [Overview.shape?, Overview.declare, hFind, if_pos rfl]
    refine Eq.trans ?_ (shapes_of_bound (hOrderly.valid.table_of_accepted hOk) hGet _ _ _).symm
    exact congrArg some (shapeOf_ofArity _).symm

/-- A body that has a value is kept, with its calls. -/
theorem Analyzed.define (h : Analyzed declared (overview.declare head)) (hOrderly : declared.Orderly width)
    (hState : state.Valid width) (hOk : state.prototype head = .ok (id, declared, events)) {f : Function}
    {calls : List String} (hName : f.name = head.name.text)
    (hSignature : f.signature = .ofArity head.parameters.length) (hBody : f.isDeclaration = false)
    (hKnown : ∀ name ∈ calls, ∃ callee, declared.callees name = some callee)
    (hCalls : ∀ callee, f.Calls callee ↔
      ∃ name ∈ calls, ∃ target, declared.callees name = some target ∧ target.id = callee) :
    Analyzed { declared with assembly := declared.assembly.put id f }
      ((overview.declare head).define head calls) := by
  obtain ⟨hDeclared, hReserved, hGet⟩ := hState.prototype hOk
  have hPut := fun key => declared.assembly.get?_put id key f
  have hFind := NameTable.find?_insert (overview.declare head).functions head.name.text
  have hAdds : AddsCalls declared { declared with assembly := declared.assembly.put id f } calls := by
    refine ⟨hKnown, fun callee => Assembly.calls_iff_of_one (fun key hKey => (hPut key).trans (if_neg hKey)) ?_⟩
    rw [hPut, if_pos rfl, hGet]
    simp [Function.not_calls_bare, hCalls]
  have hOnly : ∀ key g, (declared.assembly.put id f).get? key = some g → g.name = head.name.text →
      key = id ∧ g = f := by
    intro key g hFound hEq
    by_cases hKey : key = id
    · rw [hPut, if_pos hKey] at hFound
      exact ⟨hKey, (Option.some.inj hFound).symm⟩
    · rw [hPut, if_neg hKey] at hFound
      exact absurd (hState.eq_of_accepted hOk hFound hEq).1 hKey
  refine h.of_keepsOthers hOrderly hReserved (hDeclared.put_keepsOthers hGet hReserved hName) hAdds
    (fun other hOther => (hFind other _).trans (if_neg hOther)) rfl rfl ?_ ?_
  · refine ⟨?_, fun hNone => absurd hName (hNone id f ((hPut id).trans (if_pos rfl))), ?_⟩
    · intro key g hFound hEq
      obtain ⟨rfl, rfl⟩ := hOnly key g hFound hEq
      refine ⟨_, (hFind _ _).trans (if_pos rfl), ?_, ?_⟩
      · rw [hSignature]
        exact (shapeOf_ofArity _).symm
      · rw [hBody]
        rfl
    · refine (h.names _ hReserved).mem_called_iff hOrderly hReserved hAdds fun key => ?_
      constructor
      · rintro ⟨g, hFound, hEq⟩
        obtain ⟨rfl, -⟩ := hOnly key g hFound hEq
        exact ⟨_, hGet, rfl⟩
      · rintro ⟨g, hFound, hEq⟩
        obtain ⟨rfl, -⟩ := hState.eq_of_accepted hOk hFound hEq
        exact ⟨f, (hPut key).trans (if_pos rfl), hName⟩
  · rw [Overview.shape?, Overview.define, hFind, if_pos rfl]
    refine Eq.trans ?_ (shapes_of_bound (hState.table_of_accepted hOk)
      ((hPut id).trans (if_pos rfl)) _ _ _).symm
    rw [hSignature]
    exact congrArg some (shapeOf_ofArity _).symm

/-- A function is called in a module with an empty one in its place exactly if others call it. -/
theorem Valid.calledElsewhere_iff (h : state.Valid width)
    (hOk : state.prototype head = .ok (id, declared, events)) :
    declared.assembly.CalledElsewhere id ↔ declared.assembly.Calls id := by
  obtain ⟨-, -, hGet⟩ := h.prototype hOk
  rw [Assembly.calledElsewhere_iff]
  constructor
  · rintro ⟨key, f, -, hFound, hCalls⟩
    exact ⟨key, f, hFound, hCalls⟩
  · rintro ⟨key, f, hFound, hCalls⟩
    refine ⟨key, f, ?_, hFound, hCalls⟩
    rintro rfl
    rw [hGet] at hFound
    cases hFound
    exact Function.not_calls_bare _ _ _ _ hCalls

section Withdrawal

variable (h : Analyzed declared (overview.declare head)) (hOrderly : declared.Orderly width)
  (hState : state.Valid width) (hOk : state.prototype head = .ok (id, declared, events))
  {after : Lowering} (hAfter : after = { declared with
    assembly := declared.assembly.discard id
      (.bare head.name.text (.ofArity head.parameters.length) .external)
    functions := declared.functions.erase head.name.text })
include hState hOk hAfter

theorem eq_of_withdrawn {key : FunctionId} {f : Function} (hFound : after.assembly.get? key = some f)
    (hName : f.name = head.name.text) : key = id := by
  by_contra hKey
  rw [hAfter, Assembly.get?_discard, if_neg hKey] at hFound
  exact hKey (hState.eq_of_accepted hOk hFound hName).1

include h hOrderly

/-- The step for a name that is withdrawn, from what is known of it then. -/
theorem Analyzed.withdraw {overview' : Overview}
    (hFind : ∀ other, other ≠ head.name.text →
      overview'.functions.find? other = (overview.declare head).functions.find? other)
    (hCalled : overview'.called = overview.called) (hMain : overview'.main = overview.main)
    (hName : AnalyzedName after overview' head.name.text) (hShape : overview'.shape? head.name.text = none) :
    Analyzed after overview' := by
  obtain ⟨hDeclared, hReserved, hGet⟩ := hState.prototype hOk
  subst hAfter
  refine h.of_keepsOthers hOrderly hReserved (hDeclared.discard_keepsOthers hGet hReserved)
    (.nil (Assembly.calls_discard hGet)) hFind (hCalled.trans (List.append_nil _).symm) hMain hName ?_
  rw [hShape, Callees.shapes, callees, NameTable.find?_erase, if_pos rfl]
  rfl

theorem Analyzed.withdraw_of_called (hMem : head.name.text ∈ overview.called) :
    Analyzed after ((overview.declare head).withdraw head) := by
  obtain ⟨hDeclared, hReserved, hGet⟩ := hState.prototype hOk
  have hCalls : declared.assembly.Calls id :=
    ((h.names _ hReserved).called_iff hDeclared hGet rfl).mp hMem
  have hKept : after.assembly.get? id =
      some (.bare head.name.text (.ofArity head.parameters.length) .external) := by
    rw [hAfter]
    exact hDeclared.get?_discard_of_called ((hState.calledElsewhere_iff hOk).mpr hCalls) _ _ _
  have hFunctions : ((overview.declare head).withdraw head).functions =
      (overview.declare head).functions.insert head.name.text
        { arity := head.parameters.length, callable := false } := if_pos hMem
  have hInsert := NameTable.find?_insert (overview.declare head).functions head.name.text
  refine h.withdraw hOrderly hState hOk hAfter ?_ rfl rfl ⟨?_, ?_, ?_⟩ ?_
  · intro other hOther
    rw [hFunctions, hInsert, if_neg hOther]
  · intro key f hFound hName
    rw [eq_of_withdrawn hState hOk hAfter hFound hName, hKept] at hFound
    cases hFound
    rw [hFunctions, hInsert, if_pos rfl]
    exact ⟨_, rfl, (shapeOf_ofArity _).symm, rfl⟩
  · intro hNone
    exact absurd rfl (hNone id _ hKept)
  · refine iff_of_true hMem ⟨id, _, hKept, rfl, ?_⟩
    rw [hAfter]
    exact (Assembly.calls_discard hGet id).mpr hCalls
  · rw [Overview.shape?, hFunctions, hInsert, if_pos rfl]
    rfl

theorem Analyzed.withdraw_of_uncalled (hMem : head.name.text ∉ overview.called) :
    Analyzed after ((overview.declare head).withdraw head) := by
  obtain ⟨hDeclared, hReserved, hGet⟩ := hState.prototype hOk
  have hFree : ¬ declared.assembly.CalledElsewhere id := by
    intro hElsewhere
    have hCalls := (hState.calledElsewhere_iff hOk).mp hElsewhere
    exact hMem (((h.names _ hReserved).called_iff hDeclared hGet rfl).mpr hCalls)
  have hGone : ∀ key f, after.assembly.get? key = some f → f.name ≠ head.name.text := by
    intro key f hFound hName
    rw [eq_of_withdrawn hState hOk hAfter hFound hName, hAfter,
      hDeclared.get?_discard_of_free hFree head.name.text _ _] at hFound
    cases hFound
  have hFunctions : ((overview.declare head).withdraw head).functions =
      (overview.declare head).functions.erase head.name.text := if_neg hMem
  have hErase := NameTable.find?_erase (overview.declare head).functions head.name.text
  refine h.withdraw hOrderly hState hOk hAfter ?_ rfl rfl ⟨?_, ?_, ?_⟩ ?_
  · intro other hOther
    rw [hFunctions, hErase, if_neg hOther]
  · intro key f hFound hName
    exact absurd hName (hGone key f hFound)
  · intro _
    rw [hFunctions, hErase, if_pos rfl]
  · refine iff_of_false hMem ?_
    rintro ⟨key, f, hFound, hName, -⟩
    exact hGone key f hFound hName
  · rw [Overview.shape?, hFunctions, hErase, if_pos rfl]
    rfl

end Withdrawal

theorem map_zip_parameters {α : Type} (head : Prototype) (f : Name → α) :
    (head.parameters.zip (Function.bare head.name.text (.ofArity head.parameters.length)
        .external).parameters).map (fun parameter => f parameter.1) = head.parameters.map f := by
  have hLength : head.parameters.length ≤
      (Function.bare head.name.text (.ofArity head.parameters.length) .external).parameters.length := by
    simp [Function.bare, Signature.ofArity]
  conv_rhs => rw [← List.map_fst_zip hLength, List.map_map]
  rfl

theorem filterMap_diagnostics (problems : List Diagnostic) :
    (problems.map Event.diagnostic).filterMap Event.diagnostic? = problems := by
  rw [List.filterMap_map]
  exact List.filterMap_some

theorem Valid.accepted_reports (h : state.Valid width)
    (hOk : state.prototype head = .ok (id, declared, events)) :
    events.filterMap Event.diagnostic? = [] := by
  rcases h.accepted hOk with ⟨-, -, rfl⟩ | ⟨-, -, -, rfl⟩
  · rfl
  · rfl

theorem Analyzed.problem?_eq_none (h : Analyzed state overview) (hValid : state.Valid width)
    (hOk : state.prototype head = .ok (id, declared, events)) : overview.problem? head = none := by
  cases hProblem : overview.problem? head with
  | none => rfl
  | some problem =>
    rw [(h.prototype_iff hValid head problem).mpr hProblem] at hOk
    cases hOk

/-- What an item does to the relation, and its reports. -/
structure Agrees (result : Lowering × List Event) (found : Overview × List Diagnostic) : Prop where
  analyzed : Analyzed result.1 found.1
  reports : result.2.filterMap Event.diagnostic? = found.2

theorem Valid.nodup_of_accepted (h : state.Valid width)
    (hOk : state.prototype head = .ok (id, declared, events)) : (head.parameters.map Name.text).Nodup := by
  by_contra hRepeated
  obtain ⟨problem, hError⟩ := (h.prototype_error_iff head).mpr (.repeated hRepeated)
  rw [hError] at hOk
  cases hOk

/-- The body of an accepted definition as it is visited. -/
theorem Analyzed.lowerBody (h : Analyzed declared overview) {head : Prototype}
    (hDistinct : (head.parameters.map Name.text).Nodup) (e : Expr) :
    Noted declared.callees (fun _ => False) (declared.lowerBody head e).2 (overview.visitBody head e).2 ∧
      Values (declared.lowerBody head e).1 (overview.visitBody head e).1 := by
  have hNoted := definitionBody_noted (head.parameters.zip
    (Function.bare head.name.text (.ofArity head.parameters.length) .external).parameters) e
    (by rwa [map_zip_parameters head Name.text])
    (opened_noted declared.callees head.name.text head.parameters.length)
  have hDeclares := map_zip_parameters head fun parameter => Analysis.Visit.declares parameter.text
  rw [hDeclares, ← funext h.shapes] at hNoted
  exact hNoted

theorem Analyzed.definition (h : Analyzed state overview) (hOrderly : state.Orderly width) (head : Prototype)
    {e : Expr} (hWidth : e.widest ≤ width) :
    Agrees (state.definition head e) (overview.definition head e) := by
  rw [Overview.definition]
  rcases hOrderly.valid.definition_cases head e with
    ⟨problem, hError, hEq⟩ | ⟨id, declared, events, hOk, hCases⟩
  · rw [hEq, (h.prototype_iff hOrderly.valid head problem).mp hError]
    exact ⟨h, rfl⟩
  · rw [h.problem?_eq_none hOrderly.valid hOk]
    have hDeclared := (hOrderly.prototype hOk).orderly
    have hAnalyzed := h.accepted hOrderly hOk
    have hEvents := hOrderly.valid.accepted_reports hOk
    obtain ⟨hNoted, hValues⟩ := hAnalyzed.lowerBody (hOrderly.valid.nodup_of_accepted hOk) e
    rcases hCases with ⟨final, hFinal, hEq⟩ | ⟨value, final, hFinal, hEq⟩
    · rw [hFinal] at hNoted hValues
      have hVisit : ((overview.declare head).visitBody head e).1 = false := hValues.symm
      simp only [hVisit, Bool.false_eq_true, if_false]
      constructor
      · by_cases hMem : head.name.text ∈ overview.called
        · exact hAnalyzed.withdraw_of_called hDeclared hOrderly.valid hOk (congrArg Prod.fst hEq) hMem
        · exact hAnalyzed.withdraw_of_uncalled hDeclared hOrderly.valid hOk (congrArg Prod.fst hEq) hMem
      · rw [hEq, List.filterMap_append, List.filterMap_append, hEvents, filterMap_diagnostics, hNoted.reports]
        rfl
    · rw [hFinal] at hNoted hValues
      have hVisit : ((overview.declare head).visitBody head e).1 = true := hValues.symm
      have hCalls := hNoted.calls
      simp only [false_or] at hCalls
      obtain ⟨hName, hSignature, hBody⟩ := lowerBody_head hWidth hFinal
      simp only [hVisit, if_true]
      rw [hEq]
      constructor
      · exact hAnalyzed.define hDeclared hOrderly.valid hOk hName hSignature hBody hNoted.known hCalls
      · rw [List.filterMap_append, List.filterMap_append, hEvents, filterMap_diagnostics, hNoted.reports]
        exact List.append_nil _

theorem KeepsDefined.callees_eq {before after : Lowering} (h : KeepsDefined before after)
    (hOrderly : before.Orderly width) : after.callees = before.callees := by
  funext name
  rw [callees, callees, h.table]
  cases hFound : before.functions.find? name with
  | none => rfl
  | some found =>
    have hEntry := (hOrderly.valid.table name found hFound).1
    change (after.assembly.get? found >>= fun f => some (Callee.mk found f.signature)) =
      (before.assembly.get? found >>= fun f => some (Callee.mk found f.signature))
    rw [h.others found hEntry]

theorem Valid.ne_entry (h : state.Valid width) {name : String} (hReserved : isReserved name = false)
    {f : Function} (hGet : state.assembly.get? id = some f) (hName : f.name = name) : id ≠ state.entry :=
  (h.written_of_name hGet (hName ▸ hReserved)).2.1

theorem topLevel_eq {f : Function} (hGet : state.assembly.get? state.entry = some f) (e : Expr)
    {value : Option Operand} {final : Body}
    (hFinal : expression state.callees e ⟨⟨f, state.insertion⟩, state.scope, []⟩ = (value, final)) :
    state.topLevel e = ({ state with
        assembly := state.assembly.put state.entry final.draft.function
        insertion := final.draft.block
        scope := final.scope },
      final.diagnostics.map .diagnostic ++ [.produced value]) := by
  rw [Lowering.topLevel, hGet]
  simp only [hFinal]

theorem Analyzed.topLevel (h : Analyzed state overview) (hOrderly : state.Orderly width) {e : Expr}
    (hWidth : e.widest ≤ width) : Agrees (state.topLevel e) (overview.topLevel e) := by
  have hKeeps := hOrderly.valid.topLevel_keepsDefined e
  have hAfter := (hOrderly.topLevel hWidth).orderly
  obtain ⟨f, plan, hGet, -, -, -, hReady, -⟩ := hOrderly.valid.entry
  -- The entry function keeps the calls of earlier expressions; the notes begin after them.
  have hOpened : Noted state.callees f.Calls ⟨⟨f, state.insertion⟩, state.scope, []⟩
      { visits := overview.main } := by
    refine ⟨hReady.draft.block_lt, h.main, rfl, ?_, ?_⟩
    · intro id
      simp
    · intro name hName
      cases hName
  obtain ⟨hNoted, -, -⟩ := expression_follows e _ _ hOpened
  rw [← funext h.shapes] at hNoted
  rw [Overview.topLevel]
  generalize (Analysis.visit overview.shape? e { visits := overview.main }).2 = notes at hNoted ⊢
  cases hFinal : expression state.callees e ⟨⟨f, state.insertion⟩, state.scope, []⟩ with
  | mk value final =>
  rw [hFinal] at hNoted
  have hEq := topLevel_eq hGet e hFinal
  have hCalls : AddsCalls state (state.topLevel e).1 notes.calls := by
    refine ⟨hNoted.known, fun id => Assembly.calls_iff_of_one hKeeps.others ?_⟩
    rw [hEq, Assembly.get?_put, if_pos rfl, hGet]
    simp [hNoted.calls id]
  constructor
  · constructor
    · intro name hReserved
      refine (h.names name hReserved).keep hOrderly hReserved hCalls ?_ rfl rfl
      intro id g hName
      constructor
      · intro hFound
        have hId := hAfter.valid.ne_entry hReserved hFound hName
        rw [hKeeps.entry] at hId
        exact (hKeeps.others id hId).symm.trans hFound
      · intro hFound
        exact (hKeeps.others id (hOrderly.valid.ne_entry hReserved hFound hName)).trans hFound
    · intro name
      rw [hKeeps.callees_eq hOrderly]
      exact h.shapes name
    · rw [hEq]
      exact hNoted.order
  · rw [hEq, List.filterMap_append, filterMap_diagnostics, hNoted.reports]
    exact List.append_nil _

/-- The step lemma: an item keeps the analysis in step, and both report the same. -/
theorem Analyzed.item (h : Analyzed state overview) (hOrderly : state.Orderly width) {item : Item}
    (hWidth : item.widest ≤ width) : Agrees (state.item item) (overview.item item) := by
  cases item with
  | declaration span head =>
    cases hOk : state.prototype head with
    | error problem =>
      rw [Lowering.item, Overview.item, hOk, (h.prototype_iff hOrderly.valid head problem).mp hOk]
      exact ⟨h, rfl⟩
    | ok result =>
      obtain ⟨id, declared, events⟩ := result
      rw [Lowering.item, Overview.item, hOk, h.problem?_eq_none hOrderly.valid hOk]
      exact ⟨h.accepted hOrderly hOk, hOrderly.valid.accepted_reports hOk⟩
  | definition span head e => exact h.definition hOrderly head hWidth
  | expression e => exact h.topLevel hOrderly hWidth

/-- The run lemma: so do the items of a program. -/
theorem Analyzed.items (program : List Item) {state : Lowering} {overview : Overview}
    (h : Analyzed state overview) (hOrderly : state.Orderly width)
    (hWidth : ∀ item ∈ program, item.widest ≤ width) :
    (state.items program).2.filterMap Event.diagnostic? = overview.problems program := by
  induction program generalizing state overview with
  | nil => rfl
  | cons first rest ih =>
    rw [List.forall_mem_cons] at hWidth
    have hFirst := h.item hOrderly hWidth.1
    have hRest := ih hFirst.analyzed (hOrderly.item hWidth.1).orderly hWidth.2
    rw [Overview.problems, ← hFirst.reports, ← hRest, ← List.filterMap_append]
    rfl

end Items

end Lowering

/-- Lowering reports exactly what the analysis of the tree finds: the same problems with the same spans in the
same order, for every program. And for every function and what was visited of it so far, a read that is
visited next is reported exactly if its name was not declared before, by a parameter or by the target of an
assignment. -/
theorem lowerProgram_diagnostics (module : String) (program : List Item) :
    (lowerProgram module program).2.filterMap Event.diagnostic? = Overview.start.problems program ∧
    ∀ (functions : String → Option Shape) (e : Expr) (earlier : List Analysis.Visit),
      ∃ visits, (Analysis.visit functions e { visits := earlier }).2.visits = earlier ++ visits ∧
        Analysis.Reported earlier visits (Analysis.visit functions e { visits := earlier }).2.reports := by
  constructor
  · exact (Lowering.start_analyzed module).items program (Lowering.start_orderly _ module)
      fun item hItem => widest_le_widestItem hItem
  · exact Analysis.visit_reported

end Slate
