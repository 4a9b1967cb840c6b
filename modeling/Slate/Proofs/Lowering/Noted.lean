import Slate.Proofs.Analysis
import Slate.Proofs.Lowering.Additions

/-! # Bodies as the analysis sees them

Lowering an expression and visiting it go hand in hand: the body has slots for the variables that were
declared, in the order in which they were first declared, calls of the functions that were noted, and the same
reports; and the expression has a value for one exactly if it has one for the other. `Follows` is this relation
between two actions.
-/

namespace Slate
set_option autoImplicit false

def Function.Calls (f : Function) (id : FunctionId) : Prop :=
  ∃ instruction ∈ f.code, instruction.calls id = true

namespace Function

theorem calls_iff (f : Function) (id : FunctionId) :
    f.Calls id ↔ ∃ block, ∃ instruction ∈ f.codeAt block, instruction.calls id = true := by
  constructor
  · rintro ⟨instruction, hMem, hCalls⟩
    obtain ⟨place, block, hGet, hCode⟩ := (f.mem_code_iff instruction).mp hMem
    rw [← f.codeAt_of_get? hGet] at hCode
    exact ⟨place, instruction, hCode, hCalls⟩
  · rintro ⟨place, instruction, hMem, hCalls⟩
    cases hGet : f.blocks.get? place with
    | none => simp [codeAt, hGet] at hMem
    | some block =>
      rw [f.codeAt_of_get? hGet] at hMem
      exact ⟨instruction, (f.mem_code_iff instruction).mpr ⟨place, block, hGet, hMem⟩, hCalls⟩

theorem Adds.calls_iff {kind : BlockId → Instruction → Prop} {f g : Function} (h : f.Adds kind g)
    {id : FunctionId} (hKind : ∀ block instruction, kind block instruction → instruction.calls id = false) :
    g.Calls id ↔ f.Calls id := by
  rw [Function.calls_iff, Function.calls_iff]
  constructor
  · rintro ⟨block, instruction, hMem, hCalls⟩
    rcases h.new block instruction hMem with hOld | hNew
    · exact ⟨block, instruction, hOld, hCalls⟩
    · rw [hKind block instruction hNew] at hCalls
      cases hCalls
  · rintro ⟨block, instruction, hMem, hCalls⟩
    exact ⟨block, instruction, h.old block instruction hMem, hCalls⟩

end Function

namespace Lowering

open Analysis
open Body (Quiet Here)

def Silent (_ : BlockId) (instruction : Instruction) : Prop := ∀ id, instruction.calls id = false

theorem Silent.of_plain (id : BlockId) (instruction : Instruction) (h : instruction.Plain) :
    Silent id instruction :=
  h.calls

theorem calls_iff_of_silent {f g : Function} (h : f.Adds Silent g) (id : FunctionId) :
    g.Calls id ↔ f.Calls id :=
  h.calls_iff fun _ _ hSilent => hSilent id

/-- An instruction that calls no other function than this one. -/
def CallsOnly (callee : FunctionId) (_ : BlockId) (instruction : Instruction) : Prop :=
  ∀ id, id ≠ callee → instruction.calls id = false

def shapeOf (signature : Signature) : Shape where
  arity := signature.visibleArity
  variadic := signature.variadic
  valued := decide (signature.result ≠ .void)

theorem shapeOf_ofArity (arity : Nat) : shapeOf (.ofArity arity) = { arity := arity } := by
  simp [shapeOf, Signature.ofArity, Signature.visibleArity]

def Callees.shapes (callees : Callees) (name : String) : Option Shape :=
  (callees name).map (shapeOf ·.signature)

theorem takes_shapeOf (callee : Callee) (given : Nat) :
    (shapeOf callee.signature).takes given = decide (callee.Takes given) := by
  rw [Shape.takes, shapeOf]
  cases hVariadic : callee.signature.variadic with
  | true => simp [Callee.Takes, hVariadic]
  | false => simp [Callee.Takes, hVariadic]

/-- A body agrees with the notes about it. Calls that were there before the notes began are given. -/
structure Noted (callees : Callees) (base : FunctionId → Prop) (body : Body) (notes : Notes) :
    Prop where
  here : body.Here
  /-- The latest variable stands first in the scope. -/
  order : body.scope.entries.map Prod.fst = (declaredNames notes.visits).reverse
  reports : body.diagnostics = notes.reports
  calls : ∀ id, body.draft.function.Calls id ↔
    base id ∨ ∃ name ∈ notes.calls, ∃ callee, callees name = some callee ∧ callee.id = id
  known : ∀ name ∈ notes.calls, ∃ callee, callees name = some callee

variable {callees : Callees} {base : FunctionId → Prop} {body body' : Body} {notes : Notes}

theorem Noted.declared (h : Noted callees base body notes) (name : String) :
    (body.scope.find? name).isSome = true ↔ .declares name ∈ notes.visits := by
  rw [NameTable.isSome_find?_iff, h.order, List.mem_reverse, mem_declaredNames_iff]

/-- A name that is not bound yet has not been declared, and now it is the latest one. -/
theorem Noted.order_insert (h : Noted callees base body notes) {name : String}
    (hFresh : body.scope.find? name = none) (slot : SlotId) :
    (body.scope.insert name slot).entries.map Prod.fst =
      (declaredNames (notes.visits ++ [.declares name])).reverse := by
  have hNew : name ∉ declaredNames notes.visits := by
    rw [mem_declaredNames_iff, ← h.declared, hFresh]
    exact Bool.false_ne_true
  rw [NameTable.entries_insert_of_fresh hFresh, declaredNames_declares, if_neg hNew, List.reverse_append,
    List.map_cons, h.order]
  rfl

theorem Noted.quiet (h : Noted callees base body notes) (hQuiet : body.Quiet Silent body') :
    Noted callees base body' notes where
  here := hQuiet.here
  order := by rw [hQuiet.scope, h.order]
  reports := hQuiet.diagnostics.trans h.reports
  calls id := (calls_iff_of_silent hQuiet.code id).trans (h.calls id)
  known := h.known

theorem Noted.report (h : Noted callees base body notes) (complaint : Complaint) (span : Span) :
    Noted callees base (report complaint span body).2 (complain complaint span notes).2 where
  here := h.here
  order := h.order
  reports := congrArg (· ++ [(⟨complaint, span⟩ : Diagnostic)]) h.reports
  calls := h.calls
  known := h.known

/-- Lowering does what visiting notes, and their results are related. -/
def Follows {α β : Type} (callees : Callees) (base : FunctionId → Prop) (lower : Lower α)
    (visitor : Visitor β) (related : α → β → Prop) : Prop :=
  ∀ body notes, Noted callees base body notes →
    Noted callees base (lower body).2 (visitor notes).2 ∧
    body.draft.function.blocks.size ≤ (lower body).2.draft.function.blocks.size ∧
    related (lower body).1 (visitor notes).1

def Values (value : Option Operand) (valued : Bool) : Prop := value.isSome = valued

namespace Follows

variable {α β γ δ : Type} {related : α → β → Prop}

theorem pure {a : α} {b : β} (h : related a b) :
    Follows callees base (Pure.pure a) (Pure.pure b) related :=
  fun _ _ hNoted => ⟨hNoted, Nat.le_refl _, h⟩

theorem bind {related' : γ → δ → Prop} {lower : Lower α} {visitor : Visitor β} {next : α → Lower γ}
    {next' : β → Visitor δ} (h : Follows callees base lower visitor related)
    (hNext : ∀ a b, related a b → Follows callees base (next a) (next' b) related') :
    Follows callees base (lower >>= next) (visitor >>= next') related' := by
  intro body notes hNoted
  obtain ⟨hFirst, hSize, hRelated⟩ := h body notes hNoted
  obtain ⟨hSecond, hSize', hRelated'⟩ := hNext _ _ hRelated _ _ hFirst
  exact ⟨hSecond, Nat.le_trans hSize hSize', hRelated'⟩

/-- What is done with a result changes nothing that is noted. -/
theorem andThen {related' : γ → β → Prop} {lower : Lower α} {visitor : Visitor β} {next : α → Lower γ}
    (h : Follows callees base lower visitor related)
    (hNext : ∀ a b, related a b → Follows callees base (next a) (Pure.pure b) related') :
    Follows callees base (lower >>= next) visitor related' := by
  intro body notes hNoted
  obtain ⟨hFirst, hSize, hRelated⟩ := h body notes hNoted
  obtain ⟨hSecond, hSize', hRelated'⟩ := hNext _ _ hRelated _ _ hFirst
  exact ⟨hSecond, Nat.le_trans hSize hSize', hRelated'⟩

/-- An action that the analysis does not see. -/
theorem quietly {action : Lower γ} {next : γ → Lower α} {visitor : Visitor β} (result : γ → Prop)
    (h : ∀ body : Body, body.Here → body.Quiet Silent (action body).2 ∧ result (action body).1)
    (hNext : ∀ c, result c → Follows callees base (next c) visitor related) :
    Follows callees base (action >>= next) visitor related := by
  intro body notes hNoted
  obtain ⟨hQuiet, hResult⟩ := h body hNoted.here
  obtain ⟨hSecond, hSize, hRelated⟩ := hNext _ hResult _ notes (hNoted.quiet hQuiet)
  exact ⟨hSecond, Nat.le_trans hQuiet.code.size hSize, hRelated⟩

/-- A first action whose outcome agrees with the notes already. -/
theorem after {first : Lower γ} {next : γ → Lower α} {visitor : Visitor β}
    (hFirst : Noted callees base (first body).2 notes)
    (hNext : Follows callees base (next (first body).1) visitor related) :
    Noted callees base ((first >>= next) body).2 (visitor notes).2 ∧
      related ((first >>= next) body).1 (visitor notes).1 :=
  ⟨(hNext _ _ hFirst).1, (hNext _ _ hFirst).2.2⟩

end Follows

/-! ## Actions -/

theorem readVariable_follows (name : Name) :
    Follows callees base (readVariable name) (read name) Values := by
  intro body notes h
  rw [readVariable_eq]
  have hDeclared := h.declared name.text
  cases hFound : body.scope.find? name.text with
  | some slot =>
    rw [hFound] at hDeclared
    rw [read_of_known (hDeclared.mp rfl)]
    have hLoad := load_quiet Silent.of_plain h.here slot
    have hNoted := h.quiet hLoad
    refine ⟨{ hNoted with order := ?_ }, hLoad.code.size, rfl⟩
    rw [declaredNames_reads]
    exact hNoted.order
  | none =>
    rw [hFound] at hDeclared
    rw [read_of_unknown (fun hMem => Bool.false_ne_true (hDeclared.mpr hMem))]
    have hNoted := h.report (.undefinedVariable name.text) name.span
    refine ⟨{ hNoted with order := ?_ }, Nat.le_refl _, rfl⟩
    rw [declaredNames_reads]
    exact h.order

theorem slotFor_follows (name : String) :
    Follows callees base (slotFor name) (declare name) fun _ _ => True := by
  intro body notes h
  have hAdds := slotFor_adds Silent.of_plain h.here name
  refine ⟨⟨hAdds.here, ?_, ?_, ?_, h.known⟩, hAdds.code.size, trivial⟩
  · rw [slotFor_eq]
    change _ = (declaredNames (notes.visits ++ [.declares name])).reverse
    cases hFound : body.scope.find? name with
    | some slot =>
      have hKnown : .declares name ∈ notes.visits := by
        rw [← h.declared, hFound]
        rfl
      rw [declaredNames_declares, if_pos ((mem_declaredNames_iff _ _).mpr hKnown)]
      exact h.order
    | none => exact h.order_insert hFound _
  · rw [slotFor_eq]
    cases body.scope.find? name with
    | some slot => exact h.reports
    | none => exact h.reports
  · intro id
    exact (calls_iff_of_silent hAdds.code id).trans (h.calls id)

/-- Both sides accept the same calls. -/
theorem emitCall_follows {name : Name} {callee : Callee} (hCallee : callees name.text = some callee)
    (arguments : List Operand) :
    Follows callees base (emitCall name callee arguments)
      (Analysis.call name (shapeOf callee.signature) arguments.length) Values := by
  intro body notes h
  rw [emitCall_eq, Analysis.call, takes_shapeOf]
  by_cases hTakes : callee.Takes arguments.length
  · rw [if_pos hTakes, if_pos (decide_eq_true hTakes)]
    obtain ⟨hQuiet, ⟨destination, hMem⟩, hValue⟩ := @call_quiet (CallsOnly callee.id) body h.here
      callee.id callee.signature.result
      (if callee.signature.variadic then withCount callee.signature.visibleArity arguments else arguments)
      (fun destination id hId => decide_eq_false hId.symm)
    refine ⟨⟨hQuiet.here, ?_, hQuiet.diagnostics.trans h.reports, ?_, ?_⟩, hQuiet.code.size, hValue⟩
    · rw [hQuiet.scope]
      exact h.order
    · intro id
      change _ ↔ base id ∨ ∃ other ∈ notes.calls ++ [name.text], _
      -- The call may repeat an older one, so the new calls are not simply the old ones and this one.
      by_cases hId : id = callee.id
      · refine iff_of_true ?_ (.inr ⟨name.text, by simp, callee, hCallee, hId.symm⟩)
        rw [Function.calls_iff]
        exact ⟨_, _, hMem, by simp [Instruction.calls, hId]⟩
      · rw [hQuiet.code.calls_iff fun _ _ hOther => hOther id hId, h.calls id]
        constructor
        · rintro (hBase | ⟨other, hOther, hCalls⟩)
          · exact .inl hBase
          · exact .inr ⟨other, List.mem_append_left _ hOther, hCalls⟩
        · rintro (hBase | ⟨other, hOther, target, hTarget, hEq⟩)
          · exact .inl hBase
          · rcases List.mem_append.mp hOther with hOther | hOther
            · exact .inr ⟨other, hOther, target, hTarget, hEq⟩
            · rw [List.mem_singleton.mp hOther, hCallee] at hTarget
              cases hTarget
              exact absurd hEq.symm hId
    · intro other hOther
      rcases List.mem_append.mp hOther with hOther | hOther
      · exact h.known other hOther
      · exact ⟨callee, (congrArg callees (List.mem_singleton.mp hOther)).trans hCallee⟩
  · rw [if_neg hTakes, if_neg (by simp [hTakes])]
    exact ⟨h.report _ _, Nat.le_refl _, rfl⟩

/-! ## Control flow -/

theorem conditional_follows {positive negative : Lower (Option Operand)} {first second : Visitor Bool}
    (hPositive : Follows callees base positive first Values)
    (hNegative : Follows callees base negative second Values) (test : Operand) :
    Follows callees base (conditional positive negative test)
      (do let a ← first; let b ← second; return a && b) Values := by
  intro body notes h
  have hFork : body.Quiet Silent (body.fork test) := .fork h.here test fun _ => rfl
  obtain ⟨hThen, hThenSize, hThenValue⟩ := hPositive _ _ (h.quiet hFork)
  have hElseBlock : (body.newBlock "then").next.index <
      (positive (body.fork test)).2.draft.function.blocks.size := by
    have hNext : (body.newBlock "then").next.index = body.draft.function.blocks.size + 1 :=
      body.size_newBlock "then"
    rw [Body.size_fork] at hThenSize
    omega
  obtain ⟨hElse, hElseSize, hElseValue⟩ := hNegative _ _ (hThen.quiet (.goTo _ hElseBlock))
  obtain ⟨hMerge, hMergeValue⟩ := merge_quiet Silent.of_plain hElse.here
    (Nat.lt_of_lt_of_le hThen.here hElseSize) hElse.here (fun _ _ _ => rfl)
    (positive (body.fork test)).1
    (negative ((positive (body.fork test)).2.goTo (body.newBlock "then").next)).1
  refine ⟨hElse.quiet hMerge, ?_, ?_⟩
  · exact Nat.le_trans hFork.code.size (Nat.le_trans hThenSize (Nat.le_trans hElseSize hMerge.code.size))
  · rw [hThenValue, hElseValue] at hMergeValue
    exact hMergeValue

theorem leaveTest_quiet (inside after : BlockId) (value : Option Operand) (h : body.Here)
    (hInside : inside.index < body.draft.function.blocks.size) :
    body.Quiet Silent (leaveTest inside after value body).2 := by
  cases value with
  | none => exact .leave h (fun _ => rfl) hInside
  | some value =>
    have hTest := isTrue_quiet Silent.of_plain h value
    exact hTest.trans (.leave hTest.here (fun _ => rfl) (Nat.lt_of_lt_of_le hInside hTest.code.size))

theorem repeated_follows {condition : Lower (Option Operand)} {inner : Lower Unit} {first : Visitor Bool}
    {second : Visitor Unit} (hCondition : Follows callees base condition first Values)
    (hInner : Follows callees base inner second fun _ _ => True) :
    Follows callees base (repeated condition inner) (do let _ ← first; second; return false) Values := by
  intro body notes h
  have hOpen : body.Quiet Silent body.openLoop := .openLoop h.here fun _ => rfl
  obtain ⟨hTest, hTestSize, -⟩ := hCondition _ _ (h.quiet hOpen)
  -- The three blocks are there from the start, and nothing makes the function smaller.
  rw [Body.size_openLoop] at hTestSize
  have hInside : (body.newBlock "cond").next.index = body.draft.function.blocks.size + 1 :=
    body.size_newBlock "cond"
  have hAfter : ((body.newBlock "cond").newBlock "loop").next.index =
      body.draft.function.blocks.size + 2 := by
    change ((body.newBlock "cond").newBlock "loop").draft.function.blocks.size = _
    rw [Body.size_newBlock, Body.size_newBlock]
  have hLeave := leaveTest_quiet (body.newBlock "cond").next
    ((body.newBlock "cond").newBlock "loop").next (condition body.openLoop).1 hTest.here (by omega)
  obtain ⟨hBody, hBodySize, -⟩ := hInner _ _ (hTest.quiet hLeave)
  have hLeaveSize := hLeave.code.size
  have hDone := @Quiet.leave Silent _ hBody.here (.jump body.next) (fun _ => rfl)
    ((body.newBlock "cond").newBlock "loop").next (by omega)
  exact ⟨hBody.quiet hDone, Nat.le_trans (by omega) hDone.code.size, rfl⟩

/-! ## Expressions -/

mutual

/-- Lowering an expression follows the visit of it. The proof is by induction on the expression, with one
case for each form; arms and arguments go along. -/
theorem expression_follows (e : Expr) :
    Follows callees base (expression callees e) (visit callees.shapes e)
      Values := by
  cases e with
  | int span value =>
    rw [expression, visit]
    exact .pure rfl
  | binary span op lhs rhs =>
    rw [expression, visit]
    refine .bind (expression_follows lhs) fun left left' hLeft => ?_
    refine .bind (expression_follows rhs) fun right right' hRight => ?_
    refine .quietly (fun pair => pair.isSome = (left.isSome && right.isSome))
      (fun body h => wordPair_quiet Silent.of_plain h left right) fun pair hPair => ?_
    rw [hLeft, hRight] at hPair
    cases pair with
    | none => exact .pure hPair
    | some pair =>
      exact .quietly (fun _ => True) (fun body h => ⟨arith_quiet Silent.of_plain h op _ _, trivial⟩) fun _ _ => .pure hPair
  | compare span op lhs rhs =>
    rw [expression, visit]
    refine .bind (expression_follows lhs) fun left left' hLeft => ?_
    refine .bind (expression_follows rhs) fun right right' hRight => ?_
    refine .quietly (fun pair => pair.isSome = (left.isSome && right.isSome))
      (fun body h => wordPair_quiet Silent.of_plain h left right) fun pair hPair => ?_
    rw [hLeft, hRight] at hPair
    cases pair with
    | none => exact .pure hPair
    | some pair =>
      exact .quietly (fun _ => True) (fun body h => ⟨compare_quiet Silent.of_plain h op.predicate _ _, trivial⟩)
        fun _ _ => .pure hPair
  | «variable» span name =>
    rw [expression, visit]
    exact readVariable_follows name
  | assign span target value =>
    rw [expression, visit]
    refine .bind (slotFor_follows target.text) fun slot _ _ => ?_
    refine .andThen (expression_follows value) fun result result' hResult => ?_
    cases result with
    | none => exact .pure hResult
    | some result =>
      refine .quietly (fun _ => True) (fun body h => ⟨toWord_quiet Silent.of_plain h result, trivial⟩)
        fun stored _ => ?_
      exact .quietly (fun _ => True) (fun body h => ⟨store_quiet Silent.of_plain h slot stored, trivial⟩)
        fun _ _ => .pure hResult
  | branch span condition positive negative =>
    rw [expression_branch, visit]
    refine .bind (expression_follows condition) fun value valued hValue => ?_
    cases value with
    | none =>
      obtain rfl : false = valued := hValue
      exact .pure rfl
    | some value =>
      obtain rfl : true = valued := hValue
      refine .quietly (fun _ => True) (fun body h => ⟨isTruthy_quiet Silent.of_plain h value, trivial⟩) fun test _ => ?_
      exact conditional_follows (arm_follows positive rfl) (arm_follows negative rfl) test
  | loop span initializer condition step inner =>
    rw [expression_loop, visit]
    refine .bind (expression_follows initializer) fun _ _ _ => ?_
    have hInner : Follows callees base
        (arm callees none inner >>= fun _ => expression callees step >>= fun _ => pure ())
        (visitArm callees.shapes false inner >>= fun _ => visit callees.shapes step >>= fun _ => pure ())
        fun _ _ => True :=
      .bind (arm_follows inner rfl) fun _ _ _ => .bind (expression_follows step) fun _ _ _ => .pure trivial
    exact repeated_follows (expression_follows condition) hInner
  | call span callee arguments =>
    rw [expression, visit, Callees.shapes]
    cases hCallee : callees callee.text with
    | none =>
      intro body notes h
      exact ⟨h.report _ _, Nat.le_refl _, rfl⟩
    | some target =>
      refine .bind (words_follows arguments) fun values valued hValues => ?_
      obtain ⟨rfl, hLength⟩ := hValues
      cases values with
      | none => exact .pure rfl
      | some values =>
        rw [← hLength values rfl]
        exact emitCall_follows hCallee values

theorem arm_follows (es : List Expr) {value : Option Operand} {valued : Bool} (hValue : Values value valued) :
    Follows callees base (arm callees value es)
      (visitArm callees.shapes valued es) Values := by
  cases es with
  | nil =>
    rw [arm, visitArm]
    exact .pure hValue
  | cons first rest =>
    rw [arm, visitArm]
    exact .bind (expression_follows first) fun result result' hResult => arm_follows rest hResult

theorem words_follows (es : List Expr) :
    Follows callees base (words callees es)
      (visitArguments callees.shapes es)
      fun values valued => values.isSome = valued ∧ ∀ given, values = some given → given.length = es.length := by
  cases es with
  | nil =>
    rw [words, visitArguments]
    refine .pure ⟨rfl, ?_⟩
    rintro _ ⟨⟩
    rfl
  | cons first rest =>
    rw [words, visitArguments]
    refine .bind (expression_follows first) fun result result' hResult => ?_
    cases result with
    | none =>
      obtain rfl : false = result' := hResult
      refine .bind (words_follows rest) fun values valued _ => .pure ⟨rfl, ?_⟩
      rintro _ ⟨⟩
    | some result =>
      obtain rfl : true = result' := hResult
      refine .quietly (fun _ => True) (fun body h => ⟨toWord_quiet Silent.of_plain h result, trivial⟩)
        fun value _ => ?_
      refine .bind (words_follows rest) fun values valued hValues => ?_
      obtain ⟨rfl, hLength⟩ := hValues
      cases values with
      | none =>
        refine .pure ⟨rfl, ?_⟩
        rintro _ ⟨⟩
      | some values =>
        refine .pure ⟨rfl, ?_⟩
        rintro _ ⟨⟩
        exact congrArg (· + 1) (hLength values rfl)

end

/-! ## Definitions -/

theorem bind_noted (h : Noted callees base body notes) {name : String} (hFresh : .declares name ∉ notes.visits)
    (register : RegisterId) : Noted callees base (body.bind name register) (declare name notes).2 := by
  have hAdds := bind_adds Silent.of_plain h.here name register
  refine ⟨hAdds.here, ?_, h.reports, ?_, h.known⟩
  · apply h.order_insert
    rw [← Option.not_isSome_iff_eq_none, h.declared]
    exact hFresh
  · intro id
    exact (calls_iff_of_silent hAdds.code id).trans (h.calls id)

theorem bindParameters_noted (parameters : List (Name × RegisterId)) (h : Noted callees base body notes)
    (hDistinct : (parameters.map fun parameter => parameter.1.text).Nodup)
    (hFresh : ∀ parameter ∈ parameters, .declares parameter.1.text ∉ notes.visits) :
    Noted callees base (bindParameters parameters body).2 { notes with
      visits := notes.visits ++ parameters.map fun parameter => .declares parameter.1.text } := by
  induction parameters generalizing body notes with
  | nil =>
    rw [List.map_nil, List.append_nil]
    exact h
  | cons first rest ih =>
    rw [List.map_cons, List.nodup_cons] at hDistinct
    rw [List.forall_mem_cons] at hFresh
    have hRest := ih (bind_noted h hFresh.1 first.2) hDistinct.2 ?_
    · rw [List.map_cons, List.append_cons]
      exact hRest
    · intro parameter hMem hDeclared
      rcases List.mem_append.mp hDeclared with hOld | hFirst
      · exact hFresh.2 parameter hMem hOld
      · have hEq : parameter.1.text = first.1.text := Visit.declares.inj (List.mem_singleton.mp hFirst)
        exact hDistinct.1 (List.mem_map.mpr ⟨parameter, hMem, hEq⟩)

/-- A body is lowered as it is visited with its parameters declared. -/
theorem definitionBody_noted (parameters : List (Name × RegisterId)) (e : Expr)
    (hDistinct : (parameters.map fun parameter => parameter.1.text).Nodup)
    (h : Noted callees base body { visits := [] }) :
    Noted callees base (definitionBody callees parameters e body).2
        (visit callees.shapes e
          { visits := parameters.map fun parameter => .declares parameter.1.text }).2 ∧
      Values (definitionBody callees parameters e body).1
        (visit callees.shapes e
          { visits := parameters.map fun parameter => .declares parameter.1.text }).1 := by
  rw [definitionBody]
  refine Follows.after (bindParameters_noted parameters h hDistinct (by simp)) ?_
  refine .andThen (expression_follows e) fun value valued hValue => ?_
  cases value with
  | none => exact .pure hValue
  | some value =>
    refine .quietly (fun _ => True) (fun body h => ⟨toWord_quiet Silent.of_plain h value, trivial⟩)
      fun result _ => ?_
    exact .quietly (fun _ => True) (fun body h => ⟨ret_quiet Silent.of_plain h (some result), trivial⟩)
      fun _ _ => .pure hValue

theorem opened_noted (callees : Callees) (name : String) (arity : Nat) :
    Noted callees (fun _ => False) (opened name arity) { visits := [] } where
  here := Nat.one_pos
  order := rfl
  reports := rfl
  calls id := by
    have hCode : (opened name arity).draft.function.code = [] := rfl
    simp [Function.Calls, hCode]
  known other hOther := by cases hOther

end Lowering
end Slate
