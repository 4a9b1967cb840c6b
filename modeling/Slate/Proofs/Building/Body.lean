import Slate.Ir.Builder
import Slate.Proofs.Lowering.Program

/-! # Lowering expressions through a builder

The same lowering, written against the handles of a `Builder`, whose operations fail on a handle that
names nothing. A site shows a body when its builder has the body's function and its cursor stands where
the body does; from a site that shows a body no operation fails, and it ends in a site that shows what
the body has become.
-/

namespace Slate
set_option autoImplicit false

/-- A function body under construction in a builder. -/
structure Building.Site where
  builder : Builder
  /-- The slots of the variables assigned so far. -/
  scope : NameTable SlotRef := .empty
  diagnostics : List Diagnostic := []

namespace Building

open Lowering (Body Lower Callees bit word withCount)

abbrev Make := StateT Site Option

def build {α : Type} (action : Build α) : Make α := fun site =>
  (action site.builder).map fun (value, builder) => (value, { site with builder })

def report (complaint : Complaint) (span : Span) : Make Unit := modify fun site =>
  { site with diagnostics := site.diagnostics ++ [⟨complaint, span⟩] }

def isBit (value : Operand) : Make Bool := return (← build (Builder.valueType value)) = .i1

def toWord (value : Operand) : Make Operand := do
  if ← isBit value then build (Builder.extend value .i32) else return value

def isTruthy (value : Operand) : Make Operand := do
  if ← isBit value then build (Builder.compare .ne value (bit false))
  else build (Builder.compare .ne value (word 0))

def isTrue (value : Operand) : Make Operand := do
  if ← isBit value then build (Builder.compare .eq value (bit true)) else isTruthy value

def slotFor (entry : BlockRef) (name : String) : Make SlotRef := do
  match (← get).scope.find? name with
  | some slot => return slot
  | none =>
    let slot ← build (Builder.alloca entry { ty := .i32, name })
    modify fun site => { site with scope := site.scope.insert name slot }
    return slot

def readVariable (name : Name) : Make (Option Operand) := do
  match (← get).scope.find? name.text with
  | some slot => return some (← build (Builder.load slot))
  | none =>
    report (.undefinedVariable name.text) name.span
    return none

def wordPair (lhs rhs : Option Operand) : Make (Option (Operand × Operand)) := do
  match lhs with
  | none => return none
  | some left =>
    let first ← toWord left
    match rhs with
    | none => return none
    | some right =>
      let second ← toWord right
      return some (first, second)

def emitCall (name : Name) (callee : FunctionId) (arguments : List Operand) :
    Make (Option Operand) := do
  let signature ← build (Builder.signature callee)
  let fixed := signature.visibleArity
  let given := arguments.length
  if (if signature.variadic then fixed ≤ given else given = fixed) then
    let passed := if signature.variadic then withCount fixed arguments else arguments
    build (Builder.call callee passed)
  else
    report (.argumentCountMismatch name.text signature.variadic fixed given) name.span
    return none

def unify (thenExit elseExit : BlockRef) (thenValue elseValue : Operand) :
    Make (Operand × Operand) := do
  let thenType ← build (Builder.valueType thenValue)
  let elseType ← build (Builder.valueType elseValue)
  if thenType = elseType then return (thenValue, elseValue)
  else
    build (Builder.setInsertionPoint thenExit)
    let first ← toWord thenValue
    build (Builder.setInsertionPoint elseExit)
    let second ← toWord elseValue
    return (first, second)

def incoming (thenExit elseExit : BlockRef) (thenValue elseValue : Option Operand) :
    Make (Option (Operand × Operand)) :=
  match thenValue, elseValue with
  | some first, some second => some <$> unify thenExit elseExit first second
  | _, _ => return none

def merge (owner : FunctionId) (thenExit elseExit : BlockRef) (thenValue elseValue : Option Operand) :
    Make (Option Operand) := do
  let join ← build (Builder.createBlock owner "ifcont")
  let values ← incoming thenExit elseExit thenValue elseValue
  build (Builder.setInsertionPoint thenExit)
  build (Builder.jump join)
  build (Builder.setInsertionPoint elseExit)
  build (Builder.jump join)
  build (Builder.setInsertionPoint join)
  match values with
  | none => return none
  | some (first, second) =>
    let ty ← build (Builder.valueType first)
    return some (← build (Builder.phi ty [(first, thenExit), (second, elseExit)]))

/-- Ends the block of a loop's condition, which may have no value. -/
def leaveTest (loopBlock afterBlock : BlockRef) : Option Operand → Make Unit
  | some value => do
    let test ← isTrue value
    build (Builder.branch test loopBlock afterBlock)
  | none => build (Builder.jump afterBlock)

mutual

/-- Adds the instructions of an expression to the function `owner`, whose first block is `entry`. -/
def expression (functions : NameTable FunctionId) (owner : FunctionId) (entry : BlockRef) :
    Expr → Make (Option Operand)
  | .int _ value => return some (word value)
  | .binary _ op lhs rhs => do
    let left ← expression functions owner entry lhs
    let right ← expression functions owner entry rhs
    match ← wordPair left right with
    | none => return none
    | some (first, second) => return some (← build (Builder.arith op first second))
  | .compare _ op lhs rhs => do
    let left ← expression functions owner entry lhs
    let right ← expression functions owner entry rhs
    match ← wordPair left right with
    | none => return none
    | some (first, second) => return some (← build (Builder.compare op.predicate first second))
  | .variable _ name => readVariable name
  | .assign _ target value => do
    let slot ← slotFor entry target.text
    match ← expression functions owner entry value with
    | none => return none
    | some result =>
      let stored ← toWord result
      build (Builder.store slot stored)
      return some stored
  | .branch _ condition positive negative => do
    match ← expression functions owner entry condition with
    | none => return none
    | some value =>
      let test ← isTruthy value
      let thenBlock ← build (Builder.createBlock owner "then")
      let elseBlock ← build (Builder.createBlock owner "else")
      build (Builder.branch test thenBlock elseBlock)
      build (Builder.setInsertionPoint thenBlock)
      let thenValue ← arm functions owner entry (some (word 0)) positive
      let thenExit ← build Builder.insertionBlock
      build (Builder.setInsertionPoint elseBlock)
      let elseValue ← arm functions owner entry (some (word 0)) negative
      let elseExit ← build Builder.insertionBlock
      merge owner thenExit elseExit thenValue elseValue
  | .loop _ initializer condition step body => do
    let _ ← expression functions owner entry initializer
    let condBlock ← build (Builder.createBlock owner "cond")
    let loopBlock ← build (Builder.createBlock owner "loop")
    let afterBlock ← build (Builder.createBlock owner "afterloop")
    build (Builder.jump condBlock)
    build (Builder.setInsertionPoint condBlock)
    leaveTest loopBlock afterBlock (← expression functions owner entry condition)
    build (Builder.setInsertionPoint loopBlock)
    let _ ← arm functions owner entry none body
    let _ ← expression functions owner entry step
    build (Builder.jump condBlock)
    build (Builder.setInsertionPoint afterBlock)
    return none
  | .call _ callee arguments => do
    match functions.find? callee.text with
    | none =>
      report (.undefinedFunction callee.text) callee.span
      return none
    | some target =>
      match ← words functions owner entry arguments with
      | none => return none
      | some values => emitCall callee target values

def arm (functions : NameTable FunctionId) (owner : FunctionId) (entry : BlockRef)
    (value : Option Operand) : List Expr → Make (Option Operand)
  | [] => return value
  | first :: rest => do
    let result ← expression functions owner entry first
    arm functions owner entry result rest

def words (functions : NameTable FunctionId) (owner : FunctionId) (entry : BlockRef) :
    List Expr → Make (Option (List Operand))
  | [] => return some []
  | first :: rest => do
    match ← expression functions owner entry first with
    | none =>
      let _ ← words functions owner entry rest
      return none
    | some result =>
      let value ← toWord result
      match ← words functions owner entry rest with
      | none => return none
      | some values => return some (value :: values)

end

end Building

/-- One function continues another, as far as its handles go. -/
structure Function.Prolongs (f f' : Function) : Prop where
  name : f'.name = f.name
  signature : f'.signature = f.signature
  linkage : f'.linkage = f.linkage
  parameters : f'.parameters = f.parameters
  registers : f.registers.Grows f'.registers
  slots : f.slots.Grows f'.slots
  blocks : f.blocks.size ≤ f'.blocks.size

namespace Function.Prolongs

theorem refl (f : Function) : f.Prolongs f :=
  ⟨rfl, rfl, rfl, rfl, .refl _, .refl _, Nat.le_refl _⟩

theorem trans {f g h : Function} (hFirst : f.Prolongs g) (hSecond : g.Prolongs h) : f.Prolongs h where
  name := hSecond.name.trans hFirst.name
  signature := hSecond.signature.trans hFirst.signature
  linkage := hSecond.linkage.trans hFirst.linkage
  parameters := hSecond.parameters.trans hFirst.parameters
  registers := hFirst.registers.trans hSecond.registers
  slots := hFirst.slots.trans hSecond.slots
  blocks := hFirst.blocks.trans hSecond.blocks

variable (f : Function)

theorem append (id : BlockId) (instruction : Instruction) : f.Prolongs (f.append id instruction) :=
  ⟨rfl, rfl, rfl, rfl, .refl _, .refl _, (Table.size_modify _ _ _).ge⟩

theorem addEdge (source target : BlockId) : f.Prolongs (f.addEdge source target) :=
  ⟨rfl, rfl, rfl, rfl, .refl _, .refl _, (Table.size_modify _ _ _).ge⟩

theorem newRegister (ty : Ty) : f.Prolongs (f.newRegister ty) :=
  ⟨rfl, rfl, rfl, rfl, Table.grows_push _ _, .refl _, Nat.le_refl _⟩

theorem newBlock (label : String) : f.Prolongs (f.newBlock label) := by
  refine ⟨rfl, rfl, rfl, rfl, .refl _, .refl _, ?_⟩
  rw [Function.newBlock, Table.size_push]
  omega

theorem newSlot (id : BlockId) (slot : Slot) : f.Prolongs (f.newSlot id slot) :=
  ⟨rfl, rfl, rfl, rfl, .refl _, Table.grows_push _ _, (Table.size_modify _ _ _).ge⟩

theorem operandType? {f g : Function} (h : f.Prolongs g) {value : Operand} {ty : Ty}
    (hTy : f.operandType? value = some ty) : g.operandType? value = some ty := by
  cases value with
  | const value => exact hTy
  | register id => exact h.registers id ty hTy

/-- Without its body, a function that was continued is what it was. -/
theorem withoutBody_eq {f f' : Function} (h : f.Prolongs f')
    (hParameters : f.parameters.length = f.registers.size) : f'.withoutBody = f.withoutBody := by
  simp only [Function.withoutBody, h.name, h.signature, h.linkage, h.parameters]
  rw [hParameters, h.registers.truncate, (Table.Grows.refl f.registers).truncate]

end Function.Prolongs

/-- Emitting an instruction keeps what is there and stays in the block. -/
structure Draft.Emits {α : Type} (action : StateM Draft α) : Prop where
  prolongs : ∀ draft : Draft, draft.function.Prolongs (action draft).2.function
  block : ∀ draft : Draft, (action draft).2.block = draft.block

namespace Draft.Emits

theorem emit (instruction : Instruction) : Emits (Draft.emit instruction) :=
  ⟨fun _ => .append _ _ _, fun _ => rfl⟩

theorem emitResult (ty : Ty) (instruction : RegisterId → Instruction) :
    Emits (Draft.emitResult ty instruction) :=
  ⟨fun _ => (Function.Prolongs.newRegister _ _).trans (.append _ _ _), fun _ => rfl⟩

theorem jump (target : BlockId) : Emits (Draft.jump target) :=
  ⟨fun _ => (Function.Prolongs.addEdge _ _ _).trans (.append _ _ _), fun _ => rfl⟩

theorem branch (condition : Operand) (positive negative : BlockId) :
    Emits (Draft.branch condition positive negative) :=
  ⟨fun _ => ((Function.Prolongs.addEdge _ _ _).trans (.addEdge _ _ _)).trans (.append _ _ _),
    fun _ => rfl⟩

theorem call (callee : FunctionId) (result : Ty) (arguments : List Operand) :
    Emits (Draft.call callee result arguments) := by
  by_cases hVoid : result = .void
  · rw [Draft.call, if_pos hVoid]
    exact ⟨fun _ => .append _ _ _, fun _ => rfl⟩
  · rw [Draft.call, if_neg hVoid]
    exact ⟨fun _ => (Function.Prolongs.newRegister _ _).trans (.append _ _ _), fun _ => rfl⟩

end Draft.Emits

theorem Assembly.put_put (assembly : Assembly) (id : FunctionId) (f f' : Function) :
    (assembly.put id f).put id f' = assembly.put id f' := by
  simp only [put, IdMap.insert_insert]

theorem Assembly.put_self {assembly : Assembly} (hSorted : assembly.module.functions.Sorted)
    {id : FunctionId} {f : Function} (hGet : assembly.get? id = some f) : assembly.put id f = assembly := by
  rw [put, hSorted.insert_self hGet]

namespace Building

open Lowering (Body Lower Callees bit word withCount)

/-- The builder in which a draft of the function `owner` of an assembly is under construction. -/
def showing (assembly : Assembly) (owner : FunctionId) (draft : Draft) : Builder :=
  ⟨assembly.put owner draft.function, some ⟨owner, draft.block⟩⟩

theorem get?_showing (assembly : Assembly) (owner : FunctionId) (draft : Draft) :
    (showing assembly owner draft).assembly.get? owner = some draft.function := by
  rw [showing, Assembly.get?_put, if_pos rfl]

theorem cursor_showing (assembly : Assembly) (owner : FunctionId) (draft : Draft) :
    (showing assembly owner draft).cursor = some ⟨owner, draft.block⟩ := rfl

/-- A site that shows a body: the function `owner` of an assembly is under construction in it. -/
structure Shows (assembly : Assembly) (owner : FunctionId) (body : Body) (site : Site) : Prop where
  builder : site.builder = showing assembly owner body.draft
  scope : ∀ name, site.scope.find? name = (body.scope.find? name).map (SlotRef.mk owner)
  diagnostics : site.diagnostics = body.diagnostics
  signature : assembly.module.signature? owner = some body.draft.function.signature
  block : body.draft.block.index < body.draft.function.blocks.size
  slots : ∀ name slot, body.scope.find? name = some slot →
    body.draft.function.slots.get? slot = some { ty := .i32, name }

variable {assembly : Assembly} {owner : FunctionId} {α β γ δ : Type} {body : Body}

/-- An action succeeds wherever the body is shown and does what its counterpart does, with handles
that belong to the results of the counterpart. -/
def Builds (assembly : Assembly) (owner : FunctionId) (handle : α → β) (body : Body)
    (action : Make β) (model : Lower α) (post : Body → α → Prop) : Prop :=
  ∀ site, Shows assembly owner body site →
    ∃ site', action site = some (handle (model body).1, site') ∧
      Shows assembly owner (model body).2 site' ∧
      body.draft.function.Prolongs (model body).2.draft.function ∧
      post (model body).2 (model body).1

namespace Builds

theorem pure {handle : α → β} {value : α} {post : Body → α → Prop} (hPost : post body value) :
    Builds assembly owner handle body (pure (handle value)) (pure value) post :=
  fun site hShows => ⟨site, rfl, hShows, .refl _, hPost⟩

theorem bind {handle : α → β} {handle' : γ → δ} {action : Make β} {model : Lower α}
    {next : β → Make δ} {model' : α → Lower γ} {post : Body → α → Prop} {post' : Body → γ → Prop}
    (hAction : Builds assembly owner handle body action model post)
    (hNext : ∀ body' value, body.draft.function.Prolongs body'.draft.function → post body' value →
      Builds assembly owner handle' body' (next (handle value)) (model' value) post') :
    Builds assembly owner handle' body (action >>= next) (model >>= model') post' := by
  intro site hShows
  obtain ⟨site₁, hRun, hShows₁, hMore, hPost⟩ := hAction site hShows
  obtain ⟨site₂, hRun', hShows₂, hMore', hPost'⟩ := hNext _ _ hMore hPost site₁ hShows₁
  refine ⟨site₂, ?_, hShows₂, hMore.trans hMore', hPost'⟩
  change (action site).bind (fun result => next result.1 result.2) = _
  rw [hRun]
  exact hRun'

theorem mono {handle : α → β} {action : Make β} {model : Lower α} {post post' : Body → α → Prop}
    (h : Builds assembly owner handle body action model post)
    (hPost : ∀ body' value, body.draft.function.Prolongs body'.draft.function → post body' value →
      post' body' value) :
    Builds assembly owner handle body action model post' := by
  intro site hShows
  obtain ⟨site', hRun, hShows', hMore, hPost'⟩ := h site hShows
  exact ⟨site', hRun, hShows', hMore, hPost _ _ hMore hPost'⟩

end Builds

/-- A value that has a type in the function under construction. -/
def Typed (body : Body) (value : Operand) : Prop :=
  ∃ ty, body.draft.function.operandType? value = some ty

def TypedIfAny (body : Body) (value : Option Operand) : Prop :=
  ∀ operand, value = some operand → Typed body operand

theorem typedIfAny_none : TypedIfAny body none := fun _ hOperand => by cases hOperand

theorem typedIfAny_some {value : Operand} (h : Typed body value) : TypedIfAny body (some value) :=
  fun _ hOperand => Option.some.inj hOperand ▸ h

theorem typed_word (body : Body) (value : Word) : Typed body (word value) := ⟨.i32, rfl⟩

theorem Typed.prolongs {body' : Body} {value : Operand} (h : Typed body value)
    (hMore : body.draft.function.Prolongs body'.draft.function) : Typed body' value := by
  obtain ⟨ty, hTy⟩ := h
  exact ⟨ty, hMore.operandType? hTy⟩

theorem TypedIfAny.prolongs {body' : Body} {value : Option Operand} (h : TypedIfAny body value)
    (hMore : body.draft.function.Prolongs body'.draft.function) : TypedIfAny body' value :=
  fun operand hOperand => (h operand hOperand).prolongs hMore

/-- A block of the function under construction. -/
def Stands (body : Body) (block : BlockId) : Prop :=
  block.index < body.draft.function.blocks.size

theorem Stands.prolongs {body' : Body} {block : BlockId} (h : Stands body block)
    (hMore : body.draft.function.Prolongs body'.draft.function) : Stands body' block :=
  Nat.lt_of_lt_of_le h hMore.blocks

/-! ## Operations of the builder -/

theorem run_bind {σ : Type} {action : StateT σ Option α} {next : α → StateT σ Option β} {state state' : σ}
    {value : α} (h : action state = some (value, state')) :
    (action >>= next) state = next value state' := by
  change (action state).bind (fun result => next result.1 result.2) = _
  rw [h]
  rfl

theorem get_eq {σ : Type} (state : σ) : (get : StateT σ Option σ) state = some (state, state) := rfl

section Operations

variable {builder : Builder} {place : BlockRef} {f : Function}

theorem insertionBlock_eq (hCursor : builder.cursor = some place) :
    Builder.insertionBlock builder = some (place, builder) := by
  change builder.cursor.bind (fun found => some (found, builder)) = _
  rw [hCursor]
  rfl

theorem function_eq {id : FunctionId} (hGet : builder.assembly.get? id = some f) :
    Builder.function id builder = some (f, builder) := by
  change (builder.assembly.get? id).bind (fun found => some (found, builder)) = _
  rw [hGet]
  rfl

theorem guard_eq {condition : Prop} [Decidable condition] (h : condition) :
    (guard condition : Build Unit) builder = some ((), builder) := by
  rw [guard, if_pos h]
  rfl

theorem atCursor_eq (hCursor : builder.cursor = some place)
    (hGet : builder.assembly.get? place.function = some f) (hBlock : place.block.index < f.blocks.size)
    (action : StateM Draft α) :
    Builder.atCursor action builder = some ((action ⟨f, place.block⟩).1,
      { builder with
        assembly := builder.assembly.put place.function (action ⟨f, place.block⟩).2.function }) := by
  have hContains : f.blocks.contains place.block = true := (Table.contains_iff _ _).mpr hBlock
  rw [Builder.atCursor, run_bind (insertionBlock_eq hCursor), run_bind (function_eq hGet),
    run_bind (guard_eq hContains)]
  rfl

theorem localBlock_eq {cursor : BlockRef} (hCursor : builder.cursor = some cursor)
    (hFunction : place.function = cursor.function) :
    Builder.localBlock place builder = some (place.block, builder) := by
  rw [Builder.localBlock, run_bind (insertionBlock_eq hCursor), run_bind (guard_eq hFunction)]
  rfl

theorem targetBlock_eq {cursor : BlockRef} (hCursor : builder.cursor = some cursor)
    (hFunction : place.function = cursor.function)
    (hGet : builder.assembly.get? place.function = some f) (hBlock : place.block.index < f.blocks.size) :
    Builder.targetBlock place builder = some (place.block, builder) := by
  have hContains : f.blocks.contains place.block = true := (Table.contains_iff _ _).mpr hBlock
  rw [Builder.targetBlock, run_bind (localBlock_eq hCursor hFunction), run_bind (function_eq hGet),
    run_bind (guard_eq hContains)]
  rfl

theorem valueType_eq (hCursor : builder.cursor = some place)
    (hGet : builder.assembly.get? place.function = some f) {value : Operand} {ty : Ty}
    (hTy : f.operandType? value = some ty) :
    Builder.valueType value builder = some (ty, builder) := by
  rw [Builder.valueType, run_bind (insertionBlock_eq hCursor), run_bind (function_eq hGet)]
  change (f.operandType? value).bind (fun found => some (found, builder)) = _
  rw [hTy]
  rfl

end Operations

theorem build_eq {action : Build α} {site : Site} {builder : Builder} {value : α}
    (h : action site.builder = some (value, builder)) :
    build action site = some (value, { site with builder }) := by
  rw [build, h]
  rfl

/-- An action of the builder that does to it what its counterpart does to the draft. -/
theorem draft_builds {action : StateM Draft α} {operation : Build β} {handle : α → β}
    (hRun : Stands body body.draft.block →
      operation (showing assembly owner body.draft) =
        some (handle (action body.draft).1, showing assembly owner (action body.draft).2))
    (hMore : body.draft.function.Prolongs (action body.draft).2.function)
    (hBlock : Stands body body.draft.block →
      (action body.draft).2.block.index < (action body.draft).2.function.blocks.size) :
    Builds assembly owner handle body (build operation) (Lowering.draft action) fun body' value =>
      body'.draft = (action body.draft).2 ∧ value = (action body.draft).1 := by
  intro site hShows
  have hOperation := hRun hShows.block
  rw [← hShows.builder] at hOperation
  refine ⟨_, build_eq hOperation, ⟨rfl, hShows.scope, hShows.diagnostics, ?_, hBlock hShows.block, ?_⟩,
    hMore, rfl, rfl⟩
  · rw [hShows.signature]
    exact congrArg some hMore.signature.symm
  · intro name slot hSlot
    exact hMore.slots _ _ (hShows.slots name slot hSlot)

/-- Only what an operation does in the builder at hand counts. -/
theorem Builds.congr {operation operation' : Build β} {handle : α → β} {model : Lower α}
    {post : Body → α → Prop} (h : Builds assembly owner handle body (build operation) model post)
    (hSame : ∀ site, Shows assembly owner body site →
      operation' (showing assembly owner body.draft) = operation (showing assembly owner body.draft)) :
    Builds assembly owner handle body (build operation') model post := by
  intro site hShows
  have hRun : build operation' site = build operation site := by
    rw [build, build, hShows.builder, hSame site hShows]
  rw [hRun]
  exact h site hShows

theorem Builds.of_model {handle : α → β} {action : Make β} {model model' : Lower α}
    {post : Body → α → Prop} (h : Builds assembly owner handle body action model post)
    (hSame : model' body = model body) :
    Builds assembly owner handle body action model' post := by
  rw [Builds, hSame]
  exact h

theorem Builds.ite {condition : Prop} [Decidable condition] {handle : α → β} {action action' : Make β}
    {model model' : Lower α} {post : Body → α → Prop}
    (hPositive : Builds assembly owner handle body action model post)
    (hNegative : Builds assembly owner handle body action' model' post) :
    Builds assembly owner handle body (if condition then action else action')
      (if condition then model else model') post := by
  by_cases h : condition
  · rw [if_pos h, if_pos h]
    exact hPositive
  · rw [if_neg h, if_neg h]
    exact hNegative

section Draft

variable {action : StateM Draft α} (hEmits : Draft.Emits action)
include hEmits

theorem atCursor_showing (hBlock : Stands body body.draft.block) :
    Builder.atCursor action (showing assembly owner body.draft) =
      some ((action body.draft).1, showing assembly owner (action body.draft).2) := by
  rw [atCursor_eq (cursor_showing _ _ _) (get?_showing _ _ _) hBlock]
  rw [showing, showing, Assembly.put_put, hEmits.block]

/-- An instruction is added at the cursor. -/
theorem emit_builds : Builds assembly owner (fun value => value) body (build (Builder.atCursor action))
    (Lowering.draft action) fun body' value =>
      body'.draft = (action body.draft).2 ∧ value = (action body.draft).1 := by
  refine draft_builds (atCursor_showing hEmits) (hEmits.prolongs _) fun hBlock => ?_
  rw [hEmits.block]
  exact Nat.lt_of_lt_of_le hBlock (hEmits.prolongs _).blocks

end Draft

/-- The result of an instruction has a type. -/
theorem emitResult_builds (ty : Ty) (instruction : RegisterId → Instruction) :
    Builds assembly owner (fun value => value) body
      (build (Builder.atCursor (Draft.emitResult ty instruction)))
      (Lowering.draft (Draft.emitResult ty instruction)) Typed := by
  refine (emit_builds (.emitResult ty instruction)).mono fun body' value _ hPost => ⟨ty, ?_⟩
  rw [hPost.1, hPost.2]
  change (body.draft.function.registers.push ty).get? body.draft.function.registers.nextId = _
  rw [Table.get?_push, if_pos rfl]

theorem store_builds (slot : SlotRef) (value : Operand) :
    Builds assembly owner (fun value => value) body (build (Builder.store slot value))
      (Lowering.draft (Draft.store slot.slot value)) fun _ _ => True :=
  (emit_builds (.emit _)).mono fun _ _ _ _ => trivial

theorem ret_builds (value : Option Operand) :
    Builds assembly owner (fun value => value) body (build (Builder.ret value))
      (Lowering.draft (Draft.ret value)) fun _ _ => True :=
  (emit_builds (.emit _)).mono fun _ _ _ _ => trivial

theorem load_builds {slot : SlotId} {row : Slot}
    (hSlot : body.draft.function.slots.get? slot = some row) :
    Builds assembly owner (fun value => value) body (build (Builder.load ⟨owner, slot⟩))
      (Lowering.draft (Draft.load row.ty slot)) Typed := by
  refine (emitResult_builds row.ty (.load · slot)).congr fun _ _ => ?_
  rw [Builder.load, run_bind (function_eq (get?_showing _ _ _))]
  refine run_bind ?_
  change (body.draft.function.slots.get? slot).bind (fun found => some (found, _)) = _
  rw [hSlot]
  rfl

theorem targetBlock_showing {target : BlockId} (hTarget : Stands body target) :
    Builder.targetBlock ⟨owner, target⟩ (showing assembly owner body.draft) =
      some (target, showing assembly owner body.draft) :=
  targetBlock_eq (cursor_showing _ _ _) rfl (get?_showing _ _ _) hTarget

theorem jump_builds {target : BlockId} (hTarget : Stands body target) :
    Builds assembly owner (fun value => value) body (build (Builder.jump ⟨owner, target⟩))
      (Lowering.draft (Draft.jump target)) fun _ _ => True := by
  refine ((emit_builds (.jump target)).congr fun _ _ => ?_).mono fun _ _ _ _ => trivial
  rw [Builder.jump, run_bind (targetBlock_showing hTarget)]

theorem branch_builds (condition : Operand) {positive negative : BlockId}
    (hPositive : Stands body positive) (hNegative : Stands body negative) :
    Builds assembly owner (fun value => value) body
      (build (Builder.branch condition ⟨owner, positive⟩ ⟨owner, negative⟩))
      (Lowering.draft (Draft.branch condition positive negative)) fun _ _ => True := by
  refine ((emit_builds (.branch condition positive negative)).congr fun _ _ => ?_).mono
    fun _ _ _ _ => trivial
  rw [Builder.branch, run_bind (targetBlock_showing hPositive),
    run_bind (targetBlock_showing hNegative)]

theorem localBlock_showing (body : Body) (block : BlockId) :
    Builder.localBlock ⟨owner, block⟩ (showing assembly owner body.draft) =
      some (block, showing assembly owner body.draft) :=
  localBlock_eq (cursor_showing _ _ _) rfl

theorem phi_builds (ty : Ty) (x y : BlockId) (first second : Operand) :
    Builds assembly owner (fun value => value) body
      (build (Builder.phi ty [(first, ⟨owner, x⟩), (second, ⟨owner, y⟩)]))
      (Lowering.draft (Draft.phi ty [(x, first), (y, second)])) Typed := by
  refine (emitResult_builds ty (.phi · (.ofList [(x, first), (y, second)]))).congr fun _ _ => ?_
  have hOne : ∀ (value : Operand) (block : BlockId),
      (do return (← Builder.localBlock ⟨owner, block⟩, value) : Build _)
      (showing assembly owner body.draft) =
        some ((block, value), showing assembly owner body.draft) := fun value block =>
    run_bind (localBlock_showing body block)
  rw [Builder.phi]
  refine run_bind ?_
  rw [List.mapM_cons, run_bind (hOne first x), List.mapM_cons]
  refine run_bind ?_
  rw [run_bind (hOne second y)]
  rfl

theorem Shows.signature?_showing {site : Site} (h : Shows assembly owner body site) :
    (showing assembly owner body.draft).assembly.module.signature? = assembly.module.signature? := by
  obtain ⟨f, hGet, hSignature⟩ := Option.map_eq_some_iff.mp
    ((assembly.signature?_eq owner).symm.trans h.signature)
  exact Assembly.signature?_put hGet hSignature.symm

theorem Shows.signature_eq {site : Site} (h : Shows assembly owner body site) {callee : FunctionId}
    {signature : Signature} (hCallee : assembly.module.signature? callee = some signature) :
    Builder.signature callee (showing assembly owner body.draft) =
      some (signature, showing assembly owner body.draft) := by
  rw [← h.signature?_showing, Assembly.signature?_eq] at hCallee
  obtain ⟨f, hGet, rfl⟩ := Option.map_eq_some_iff.mp hCallee
  exact run_bind (function_eq hGet)

theorem call_typed (callee : FunctionId) (result : Ty) (arguments : List Operand) (body : Body) :
    TypedIfAny (Lowering.draft (Draft.call callee result arguments) body).2
      (Lowering.draft (Draft.call callee result arguments) body).1 := by
  by_cases hVoid : result = .void
  · rw [Draft.call, if_pos hVoid]
    exact fun _ hOperand => by cases hOperand
  · rw [Draft.call, if_neg hVoid]
    intro operand hOperand
    refine ⟨result, ?_⟩
    rw [← Option.some.inj hOperand]
    change (body.draft.function.registers.push result).get? body.draft.function.registers.nextId = _
    rw [Table.get?_push, if_pos rfl]

theorem call_builds {callee : FunctionId} {signature : Signature} (arguments : List Operand)
    (hCallee : assembly.module.signature? callee = some signature) :
    Builds assembly owner (fun value => value) body (build (Builder.call callee arguments))
      (Lowering.draft (Draft.call callee signature.result arguments)) TypedIfAny := by
  refine ((emit_builds (.call callee signature.result arguments)).congr fun site hShows => ?_).mono
    fun body' value _ hPost => ?_
  · rw [Builder.call, run_bind (hShows.signature_eq hCallee)]
  · intro operand hOperand
    obtain ⟨ty, hTy⟩ := call_typed callee signature.result arguments body operand
      (hPost.2.symm.trans hOperand)
    exact ⟨ty, hPost.1 ▸ hTy⟩

theorem putFunction_showing (assembly : Assembly) (owner : FunctionId) (draft : Draft) (f : Function) :
    Builder.putFunction owner f (showing assembly owner draft) =
      some ((), showing assembly owner { draft with function := f }) := by
  change some ((), (⟨_, _⟩ : Builder)) = _
  rw [showing, Assembly.put_put]
  rfl

theorem createBlock_builds (label : String) :
    Builds assembly owner (BlockRef.mk owner) body (build (Builder.createBlock owner label))
      (Lowering.draft (Draft.newBlock label)) Stands := by
  have hNext : body.draft.function.blocks.size < (body.draft.function.newBlock label).blocks.size := by
    rw [Function.newBlock, Table.size_push]
    omega
  refine (draft_builds (fun _ => ?_) (.newBlock _ _) fun hBlock => ?_).mono fun body' value _ hPost => ?_
  · rw [Builder.createBlock, run_bind (function_eq (get?_showing _ _ _))]
    refine run_bind (putFunction_showing _ _ _ _)
  · exact Nat.lt_trans hBlock hNext
  · rw [Stands, hPost.1, hPost.2]
    exact hNext

theorem alloca_builds (slot : Slot) :
    Builds assembly owner (SlotRef.mk owner) body (build (Builder.alloca ⟨owner, ⟨0⟩⟩ slot))
      (Lowering.draft (Draft.newSlot slot)) fun body' id =>
        body'.draft.function.slots.get? id = some slot := by
  refine (draft_builds (fun hBlock => ?_) (.newSlot _ _ _) fun hBlock => ?_).mono
    fun body' value _ hPost => ?_
  · have hFirst : body.draft.function.blocks.contains ⟨0⟩ = true :=
      (Table.contains_iff _ _).mpr (Nat.zero_lt_of_lt hBlock)
    rw [Builder.alloca, run_bind (function_eq (get?_showing _ _ _)), run_bind (guard_eq hFirst)]
    refine run_bind (putFunction_showing _ _ _ _)
  · exact Nat.lt_of_lt_of_le hBlock (Function.Prolongs.newSlot _ _ _).blocks
  · rw [hPost.1, hPost.2]
    change (body.draft.function.slots.push slot).get? body.draft.function.slots.nextId = _
    rw [Table.get?_push, if_pos rfl]

theorem setInsertionPoint_builds {block : BlockId} (hBlock : Stands body block) :
    Builds assembly owner (fun value => value) body (build (Builder.setInsertionPoint ⟨owner, block⟩))
      (Lowering.draft (Draft.moveTo block)) fun _ _ => True := by
  refine (draft_builds ?_ ?_ ?_).mono fun _ _ _ _ => trivial
  · exact fun _ => rfl
  · exact .refl _
  · exact fun _ => hBlock

/-- Asking the builder for something changes nothing. -/
theorem ask_builds {action : StateM Draft α} {operation : Build β} {handle : α → β} (value : α)
    (hModel : action body.draft = (value, body.draft)) {post : Body → α → Prop}
    (hRun : operation (showing assembly owner body.draft) =
      some (handle value, showing assembly owner body.draft))
    (hPost : Stands body body.draft.block → post body value) :
    Builds assembly owner handle body (build operation) (Lowering.draft action) post := by
  intro site hShows
  have hDraft : Lowering.draft action body = (value, body) := by
    change ((action body.draft).1, ({ body with draft := (action body.draft).2 } : Body)) = _
    rw [hModel]
  rw [← hShows.builder] at hRun
  rw [hDraft]
  exact ⟨site, build_eq hRun, hShows, .refl _, hPost hShows.block⟩

/-- Something that the builder is asked for and the counterpart knows. -/
theorem Builds.asking {operation : Build α} {value : α} {handle : γ → δ} {next : α → Make δ}
    {model : Lower γ} {post : Body → γ → Prop}
    (hRun : ∀ site, Shows assembly owner body site →
      operation (showing assembly owner body.draft) =
        some (value, showing assembly owner body.draft))
    (hNext : Builds assembly owner handle body (next value) model post) :
    Builds assembly owner handle body (build operation >>= next) model post := by
  intro site hShows
  have hOperation := hRun site hShows
  rw [← hShows.builder] at hOperation
  rw [run_bind (build_eq hOperation)]
  exact hNext site hShows

theorem insertionBlock_builds :
    Builds assembly owner (BlockRef.mk owner) body (build Builder.insertionBlock)
      (Lowering.draft Draft.current) fun body' block => body' = body ∧ Stands body block := by
  refine ask_builds body.draft.block ?_ ?_ ?_
  · rfl
  · exact insertionBlock_eq (cursor_showing _ _ _)
  · exact fun hBlock => ⟨rfl, hBlock⟩

theorem valueType_builds {value : Operand} {ty : Ty}
    (hTy : body.draft.function.operandType? value = some ty) :
    Builds assembly owner (fun ty => ty.getD .void) body (build (Builder.valueType value))
      (Lowering.draft (Draft.operandType? value)) fun body' found => body' = body ∧ found = some ty := by
  refine ask_builds (some ty) ?_ ?_ ?_
  · exact congrArg (·, body.draft) hTy
  · exact valueType_eq (cursor_showing _ _ _) (get?_showing _ _ _) hTy
  · exact fun _ => ⟨rfl, rfl⟩

theorem isBit_builds {value : Operand} (hValue : Typed body value) :
    Builds assembly owner (fun value => value) body (isBit value) (Lowering.isBit value)
      fun body' bit => body' = body ∧
        bit = decide (body.draft.function.operandType? value = some .i1) := by
  obtain ⟨ty, hTy⟩ := hValue
  refine (valueType_builds hTy).bind fun body' found _ hPost => ?_
  obtain ⟨rfl, rfl⟩ := hPost
  have hSame : decide ((some ty).getD .void = .i1) = decide (some ty = some .i1) := by simp
  rw [hSame]
  exact .pure ⟨rfl, by rw [hTy]⟩

theorem report_builds (complaint : Complaint) (span : Span) :
    Builds assembly owner (fun value => value) body (report complaint span)
      (Lowering.report complaint span) fun _ _ => True := by
  intro site hShows
  refine ⟨_, rfl, ⟨hShows.builder, hShows.scope, ?_, hShows.signature, hShows.block, hShows.slots⟩,
    .refl _, trivial⟩
  exact congrArg (· ++ [⟨complaint, span⟩]) hShows.diagnostics

/-! ## Values -/

theorem toWord_builds {value : Operand} (hValue : Typed body value) :
    Builds assembly owner (fun value => value) body (toWord value) (Lowering.toWord value) Typed := by
  refine (isBit_builds hValue).bind fun body' bit _ hPost => ?_
  obtain ⟨rfl, -⟩ := hPost
  cases bit with
  | true => exact emitResult_builds .i32 (.extend · value .i32)
  | false => exact .pure hValue

theorem isTruthy_builds {value : Operand} (hValue : Typed body value) :
    Builds assembly owner (fun value => value) body (isTruthy value) (Lowering.isTruthy value) Typed := by
  refine (isBit_builds hValue).bind fun body' bit _ _ => ?_
  cases bit <;> exact emitResult_builds .i1 _

theorem isTrue_builds {value : Operand} (hValue : Typed body value) :
    Builds assembly owner (fun value => value) body (isTrue value) (Lowering.isTrue value) Typed := by
  refine (isBit_builds hValue).bind fun body' bit _ hPost => ?_
  obtain ⟨rfl, hBit⟩ := hPost
  cases bit with
  | true => exact emitResult_builds .i1 _
  | false =>
    refine (isTruthy_builds hValue).of_model ?_
    rw [Lowering.isTruthy, Lowering.isBit_bind, ← hBit]
    rfl

/-- A name is given to a slot. -/
theorem insert_builds {name : String} {slot : SlotId}
    (hSlot : body.draft.function.slots.get? slot = some { ty := .i32, name }) :
    Builds assembly owner (fun value => value) body
      (modify fun site => { site with scope := site.scope.insert name ⟨owner, slot⟩ })
      (modify fun body => { body with scope := body.scope.insert name slot }) fun _ _ => True := by
  intro site hShows
  refine ⟨_, rfl, ⟨hShows.builder, ?_, hShows.diagnostics, hShows.signature, hShows.block, ?_⟩,
    .refl _, trivial⟩
  · intro key
    change (site.scope.insert name ⟨owner, slot⟩).find? key =
      ((body.scope.insert name slot).find? key).map (SlotRef.mk owner)
    rw [NameTable.find?_insert, NameTable.find?_insert]
    split
    · rfl
    · exact hShows.scope key
  · intro key found hKey
    change (body.scope.insert name slot).find? key = some found at hKey
    rw [NameTable.find?_insert] at hKey
    split at hKey
    · rename_i hEq
      cases hKey
      rw [hEq]
      exact hSlot
    · exact hShows.slots key found hKey

theorem slotFor_builds (name : String) :
    Builds assembly owner (SlotRef.mk owner) body (slotFor ⟨owner, ⟨0⟩⟩ name) (Lowering.slotFor name)
      fun _ _ => True := by
  intro site hShows
  have hScope := hShows.scope name
  rw [slotFor, run_bind (get_eq site), hScope]
  cases hFind : body.scope.find? name with
  | some slot =>
    rw [Lowering.slotFor_eq, hFind]
    exact ⟨site, rfl, hShows, .refl _, trivial⟩
  | none =>
    have hBuilds : Builds assembly owner (SlotRef.mk owner) body
        (do
          let slot ← build (Builder.alloca ⟨owner, ⟨0⟩⟩ { ty := .i32, name })
          modify fun site => { site with scope := site.scope.insert name slot }
          return slot)
        (do
          let slot ← Lowering.draft (Draft.newSlot { ty := .i32, name })
          modify fun body => { body with scope := body.scope.insert name slot }
          return slot)
        fun _ _ => True := by
      refine (alloca_builds _).bind fun body₁ slot _ hSlot => ?_
      refine (insert_builds hSlot).bind fun _ _ _ _ => ?_
      exact .pure trivial
    refine hBuilds.of_model ?_ site hShows
    rw [Lowering.slotFor_eq, hFind]
    rfl

theorem readVariable_builds (name : Name) :
    Builds assembly owner (fun value => value) body (readVariable name) (Lowering.readVariable name)
      TypedIfAny := by
  intro site hShows
  have hScope := hShows.scope name.text
  cases hFind : body.scope.find? name.text with
  | some slot =>
    rw [hFind] at hScope
    have hBuilds : Builds assembly owner (fun value => value) body
        (build (Builder.load ⟨owner, slot⟩) >>= fun value => pure (some value))
        (Lowering.draft (Draft.load .i32 slot) >>= fun value => pure (some value)) TypedIfAny :=
      (load_builds (hShows.slots _ _ hFind)).bind fun _ _ _ hTyped =>
        .pure (typedIfAny_some hTyped)
    have hRun : readVariable name site =
        (build (Builder.load ⟨owner, slot⟩) >>= fun value => pure (some value)) site := by
      rw [readVariable, run_bind (get_eq site), hScope]
      rfl
    rw [Lowering.readVariable_eq, hFind, hRun]
    exact hBuilds site hShows
  | none =>
    rw [hFind] at hScope
    obtain ⟨site', hReport, hShows', hMore, _⟩ :=
      report_builds (.undefinedVariable name.text) name.span site hShows
    have hRun : readVariable name site = some (none, site') := by
      rw [readVariable, run_bind (get_eq site), hScope]
      exact run_bind hReport
    rw [Lowering.readVariable_eq, hFind]
    exact ⟨site', hRun, hShows', hMore, typedIfAny_none⟩

theorem wordPair_builds {lhs rhs : Option Operand} (hLeft : TypedIfAny body lhs)
    (hRight : TypedIfAny body rhs) :
    Builds assembly owner (fun value => value) body (wordPair lhs rhs) (Lowering.wordPair lhs rhs)
      fun _ _ => True := by
  cases lhs with
  | none => exact .pure trivial
  | some left =>
    refine (toWord_builds (hLeft left rfl)).bind fun body₁ first hMore _ => ?_
    cases rhs with
    | none => exact .pure trivial
    | some right =>
      refine (toWord_builds ((hRight right rfl).prolongs hMore)).bind fun body₂ second _ _ => ?_
      exact .pure trivial

theorem emitCall_builds (name : Name) {callee : FunctionId} {signature : Signature}
    (hCallee : assembly.module.signature? callee = some signature) (arguments : List Operand) :
    Builds assembly owner (fun value => value) body (emitCall name callee arguments)
      (Lowering.emitCall name ⟨callee, signature⟩ arguments) TypedIfAny := by
  refine .asking (fun site hShows => hShows.signature_eq hCallee) ?_
  refine .ite (call_builds _ hCallee) ?_
  exact (report_builds _ _).bind fun _ _ _ _ => .pure typedIfAny_none

/-! ## Joining arms -/

theorem unify_builds {x y : BlockId} {first second : Operand} (hx : Stands body x) (hy : Stands body y)
    (hFirst : Typed body first) (hSecond : Typed body second) :
    Builds assembly owner (fun value => value) body (unify ⟨owner, x⟩ ⟨owner, y⟩ first second)
      (Lowering.unify x y first second) fun body' values => Typed body' values.1 := by
  obtain ⟨firstTy, hFirstTy⟩ := hFirst
  obtain ⟨secondTy, hSecondTy⟩ := hSecond
  refine (valueType_builds hFirstTy).bind fun body₁ found _ hPost => ?_
  obtain ⟨rfl, rfl⟩ := hPost
  refine (valueType_builds hSecondTy).bind fun body₂ found _ hPost => ?_
  obtain ⟨rfl, rfl⟩ := hPost
  simp only [Option.getD_some, Option.some.injEq]
  refine .ite (.pure ⟨firstTy, hFirstTy⟩) ?_
  refine (setInsertionPoint_builds hx).bind fun body₁ _ hMore₁ _ => ?_
  refine (toWord_builds ⟨firstTy, hMore₁.operandType? hFirstTy⟩).bind fun body₂ one hMore₂ hOne => ?_
  have hMore := hMore₁.trans hMore₂
  refine (setInsertionPoint_builds (hy.prolongs hMore)).bind fun body₃ _ hMore₃ _ => ?_
  refine (toWord_builds ⟨secondTy, (hMore.trans hMore₃).operandType? hSecondTy⟩).bind
    fun body₄ two hMore₄ _ => ?_
  exact .pure ((hOne.prolongs hMore₃).prolongs hMore₄)

theorem incoming_builds {x y : BlockId} {first second : Option Operand} (hx : Stands body x)
    (hy : Stands body y) (hFirst : TypedIfAny body first) (hSecond : TypedIfAny body second) :
    Builds assembly owner (fun value => value) body (incoming ⟨owner, x⟩ ⟨owner, y⟩ first second)
      (Lowering.incoming x y first second)
      fun body' values => ∀ pair, values = some pair → Typed body' pair.1 := by
  cases first with
  | none => exact .pure fun _ hPair => by cases hPair
  | some first =>
    cases second with
    | none => exact .pure fun _ hPair => by cases hPair
    | some second =>
      refine (unify_builds hx hy (hFirst first rfl) (hSecond second rfl)).bind
        fun body' values _ hValues => .pure ?_
      intro pair hPair
      cases hPair
      exact hValues

theorem merge_eq_bind (x y : BlockId) (first second : Option Operand) :
    Lowering.merge x y first second = (do
      let join ← Lowering.draft (Draft.newBlock "ifcont")
      let values ← Lowering.incoming x y first second
      Lowering.draft (Draft.moveTo x)
      Lowering.draft (Draft.jump join)
      Lowering.draft (Draft.moveTo y)
      Lowering.draft (Draft.jump join)
      Lowering.draft (Draft.moveTo join)
      Lowering.conclude x y values) := by
  cases first <;> cases second <;> rfl

theorem merge_builds {x y : BlockId} {first second : Option Operand} (hx : Stands body x)
    (hy : Stands body y) (hFirst : TypedIfAny body first) (hSecond : TypedIfAny body second) :
    Builds assembly owner (fun value => value) body
      (merge owner ⟨owner, x⟩ ⟨owner, y⟩ first second) (Lowering.merge x y first second)
      TypedIfAny := by
  rw [merge_eq_bind]
  refine (createBlock_builds "ifcont").bind fun body₁ join hMore₁ hJoin => ?_
  refine (incoming_builds (hx.prolongs hMore₁) (hy.prolongs hMore₁) (hFirst.prolongs hMore₁)
    (hSecond.prolongs hMore₁)).bind fun body₂ values hMore₂ hValues => ?_
  have hx₂ := (hx.prolongs hMore₁).prolongs hMore₂
  have hy₂ := (hy.prolongs hMore₁).prolongs hMore₂
  have hJoin₂ := hJoin.prolongs hMore₂
  refine (setInsertionPoint_builds hx₂).bind fun body₃ _ hMore₃ _ => ?_
  refine (jump_builds (hJoin₂.prolongs hMore₃)).bind fun body₄ _ hMore₄ _ => ?_
  have hMore := hMore₃.trans hMore₄
  refine (setInsertionPoint_builds (hy₂.prolongs hMore)).bind fun body₅ _ hMore₅ _ => ?_
  have hMore := hMore.trans hMore₅
  refine (jump_builds (hJoin₂.prolongs hMore)).bind fun body₆ _ hMore₆ _ => ?_
  have hMore := hMore.trans hMore₆
  refine (setInsertionPoint_builds (hJoin₂.prolongs hMore)).bind fun body₇ _ hMore₇ _ => ?_
  have hMore := hMore.trans hMore₇
  cases values with
  | none => exact .pure typedIfAny_none
  | some pair =>
    obtain ⟨ty, hTy⟩ := (hValues pair rfl).prolongs hMore
    refine (valueType_builds hTy).bind fun body₈ found _ hPost => ?_
    obtain ⟨rfl, rfl⟩ := hPost
    refine (phi_builds ty x y pair.1 pair.2).bind fun _ _ _ hTyped => ?_
    exact .pure (typedIfAny_some hTyped)

/-! ## Expressions -/

/-- Names stand for functions of the assembly. -/
def Resolves (assembly : Assembly) (functions : NameTable FunctionId) (callees : Callees) : Prop :=
  ∀ name, match functions.find? name with
    | none => callees name = none
    | some id => ∃ signature, assembly.module.signature? id = some signature ∧
      callees name = some ⟨id, signature⟩

/-- The counterpart of `leaveTest`. -/
def leaveCondition (inside after : BlockId) : Option Operand → Lower Unit
  | some value => do
    let test ← Lowering.isTrue value
    Lowering.draft (Draft.branch test inside after)
  | none => Lowering.draft (Draft.jump after)

theorem leaveTest_builds {inside after : BlockId} {value : Option Operand} (hInside : Stands body inside)
    (hAfter : Stands body after) (hValue : TypedIfAny body value) :
    Builds assembly owner (fun value => value) body (leaveTest ⟨owner, inside⟩ ⟨owner, after⟩ value)
      (leaveCondition inside after value) fun _ _ => True := by
  cases value with
  | none => exact jump_builds hAfter
  | some value =>
    refine (isTrue_builds (hValue value rfl)).bind fun body' test hMore _ => ?_
    exact branch_builds test (hInside.prolongs hMore) (hAfter.prolongs hMore)

theorem loop_eq_bind (callees : Callees) (span : Span) (initializer condition step : Expr)
    (inner : List Expr) :
    Lowering.expression callees (.loop span initializer condition step inner) = (do
      let _ ← Lowering.expression callees initializer
      let condBlock ← Lowering.draft (Draft.newBlock "cond")
      let loopBlock ← Lowering.draft (Draft.newBlock "loop")
      let afterBlock ← Lowering.draft (Draft.newBlock "afterloop")
      Lowering.draft (Draft.jump condBlock)
      Lowering.draft (Draft.moveTo condBlock)
      leaveCondition loopBlock afterBlock (← Lowering.expression callees condition)
      Lowering.draft (Draft.moveTo loopBlock)
      let _ ← Lowering.arm callees none inner
      let _ ← Lowering.expression callees step
      Lowering.draft (Draft.jump condBlock)
      Lowering.draft (Draft.moveTo afterBlock)
      return none) := by
  rw [Lowering.expression]
  refine bind_congr fun _ => bind_congr fun _ => bind_congr fun _ => bind_congr fun _ =>
    bind_congr fun _ => bind_congr fun _ => bind_congr fun value => ?_
  cases value <;> rfl

section Expressions

variable {functions : NameTable FunctionId} {callees : Callees}

mutual

theorem expression_builds (hResolves : Resolves assembly functions callees) (e : Expr) (body : Body) :
    Builds assembly owner (fun value => value) body (expression functions owner ⟨owner, ⟨0⟩⟩ e)
      (Lowering.expression callees e) TypedIfAny := by
  cases e with
  | int span value =>
    rw [expression, Lowering.expression]
    exact .pure (typedIfAny_some (typed_word _ value))
  | binary span op lhs rhs =>
    rw [expression, Lowering.expression]
    refine (expression_builds hResolves lhs body).bind fun body₁ left _ hLeft => ?_
    refine (expression_builds hResolves rhs body₁).bind fun body₂ right hMore hRight => ?_
    refine (wordPair_builds (hLeft.prolongs hMore) hRight).bind fun body₃ pair _ _ => ?_
    cases pair with
    | none => exact .pure typedIfAny_none
    | some pair =>
      refine Builds.bind (emitResult_builds .i32 (.arith op · pair.1 pair.2)) fun _ _ _ hTyped => ?_
      exact .pure (typedIfAny_some hTyped)
  | compare span op lhs rhs =>
    rw [expression, Lowering.expression]
    refine (expression_builds hResolves lhs body).bind fun body₁ left _ hLeft => ?_
    refine (expression_builds hResolves rhs body₁).bind fun body₂ right hMore hRight => ?_
    refine (wordPair_builds (hLeft.prolongs hMore) hRight).bind fun body₃ pair _ _ => ?_
    cases pair with
    | none => exact .pure typedIfAny_none
    | some pair =>
      refine Builds.bind (emitResult_builds .i1 (.compare op.predicate · pair.1 pair.2))
        fun _ _ _ hTyped => ?_
      exact .pure (typedIfAny_some hTyped)
  | «variable» span name =>
    rw [expression, Lowering.expression]
    exact readVariable_builds name
  | assign span target value =>
    rw [expression, Lowering.expression]
    refine (slotFor_builds target.text).bind fun body₁ slot _ _ => ?_
    refine (expression_builds hResolves value body₁).bind fun body₂ result _ hResult => ?_
    cases result with
    | none => exact .pure typedIfAny_none
    | some result =>
      refine (toWord_builds (hResult result rfl)).bind fun body₃ stored _ hStored => ?_
      refine (store_builds ⟨owner, slot⟩ stored).bind fun body₄ _ hMore _ => ?_
      exact .pure (typedIfAny_some (hStored.prolongs hMore))
  | branch span condition positive negative =>
    rw [expression, Lowering.expression]
    refine (expression_builds hResolves condition body).bind fun body₁ value _ hValue => ?_
    cases value with
    | none => exact .pure typedIfAny_none
    | some value =>
      refine (isTruthy_builds (hValue value rfl)).bind fun body₂ test _ _ => ?_
      refine (createBlock_builds "then").bind fun body₃ thenBlock _ hThen => ?_
      refine (createBlock_builds "else").bind fun body₄ elseBlock hMore₄ hElse => ?_
      have hThen := hThen.prolongs hMore₄
      refine (branch_builds test hThen hElse).bind fun body₅ _ hMore₅ _ => ?_
      refine (setInsertionPoint_builds (hThen.prolongs hMore₅)).bind fun body₆ _ hMore₆ _ => ?_
      refine (arm_builds hResolves positive _ body₆ (typedIfAny_some (typed_word _ 0))).bind
        fun body₇ thenValue hMore₇ hThenValue => ?_
      refine insertionBlock_builds.bind fun body₈ thenExit _ hPost => ?_
      obtain ⟨rfl, hThenExit⟩ := hPost
      have hElse := hElse.prolongs ((hMore₅.trans hMore₆).trans hMore₇)
      refine (setInsertionPoint_builds hElse).bind fun body₉ _ hMore₉ _ => ?_
      refine (arm_builds hResolves negative _ body₉ (typedIfAny_some (typed_word _ 0))).bind
        fun body₁₀ elseValue hMore₁₀ hElseValue => ?_
      refine insertionBlock_builds.bind fun body₁₁ elseExit _ hPost => ?_
      obtain ⟨rfl, hElseExit⟩ := hPost
      have hMore := hMore₉.trans hMore₁₀
      exact merge_builds (hThenExit.prolongs hMore) hElseExit (hThenValue.prolongs hMore) hElseValue
  | loop span initializer condition step inner =>
    rw [expression, loop_eq_bind]
    refine (expression_builds hResolves initializer body).bind fun body₁ _ _ _ => ?_
    refine (createBlock_builds "cond").bind fun body₂ condBlock _ hCond => ?_
    refine (createBlock_builds "loop").bind fun body₃ loopBlock hMore₃ hLoop => ?_
    refine (createBlock_builds "afterloop").bind fun body₄ afterBlock hMore₄ hAfter => ?_
    have hLoop := hLoop.prolongs hMore₄
    have hCond := hCond.prolongs (hMore₃.trans hMore₄)
    refine (jump_builds hCond).bind fun body₅ _ hMore₅ _ => ?_
    refine (setInsertionPoint_builds (hCond.prolongs hMore₅)).bind fun body₆ _ hMore₆ _ => ?_
    refine (expression_builds hResolves condition body₆).bind fun body₇ value hMore₇ hValue => ?_
    have hMore := (hMore₅.trans hMore₆).trans hMore₇
    refine (leaveTest_builds (hLoop.prolongs hMore) (hAfter.prolongs hMore) hValue).bind
      fun body₈ _ hMore₈ _ => ?_
    have hMore := hMore.trans hMore₈
    refine (setInsertionPoint_builds (hLoop.prolongs hMore)).bind fun body₉ _ hMore₉ _ => ?_
    refine (arm_builds hResolves inner none body₉ typedIfAny_none).bind fun body₁₀ _ hMore₁₀ _ => ?_
    refine (expression_builds hResolves step body₁₀).bind fun body₁₁ _ hMore₁₁ _ => ?_
    have hMore := hMore.trans (hMore₉.trans (hMore₁₀.trans hMore₁₁))
    refine (jump_builds (hCond.prolongs hMore)).bind fun body₁₂ _ hMore₁₂ _ => ?_
    refine (setInsertionPoint_builds (hAfter.prolongs (hMore.trans hMore₁₂))).bind fun _ _ _ _ => ?_
    exact .pure typedIfAny_none
  | call span callee arguments =>
    rw [expression, Lowering.expression]
    have hName := hResolves callee.text
    cases hFind : functions.find? callee.text with
    | none =>
      rw [hFind] at hName
      rw [hName]
      exact (report_builds _ _).bind fun _ _ _ _ => .pure typedIfAny_none
    | some id =>
      rw [hFind] at hName
      obtain ⟨signature, hSignature, hCallee⟩ := hName
      rw [hCallee]
      refine (words_builds hResolves arguments body).bind fun body₁ values _ _ => ?_
      cases values with
      | none => exact .pure typedIfAny_none
      | some values => exact emitCall_builds callee hSignature values

theorem arm_builds (hResolves : Resolves assembly functions callees) (es : List Expr)
    (value : Option Operand) (body : Body) (hValue : TypedIfAny body value) :
    Builds assembly owner (fun value => value) body (arm functions owner ⟨owner, ⟨0⟩⟩ value es)
      (Lowering.arm callees value es) TypedIfAny := by
  cases es with
  | nil =>
    rw [arm, Lowering.arm]
    exact .pure hValue
  | cons first rest =>
    rw [arm, Lowering.arm]
    refine (expression_builds hResolves first body).bind fun body₁ result _ hResult => ?_
    exact arm_builds hResolves rest result body₁ hResult

theorem words_builds (hResolves : Resolves assembly functions callees) (es : List Expr) (body : Body) :
    Builds assembly owner (fun value => value) body (words functions owner ⟨owner, ⟨0⟩⟩ es)
      (Lowering.words callees es) fun _ _ => True := by
  cases es with
  | nil =>
    rw [words, Lowering.words]
    exact .pure trivial
  | cons first rest =>
    rw [words, Lowering.words]
    refine (expression_builds hResolves first body).bind fun body₁ result _ hResult => ?_
    cases result with
    | none =>
      refine (words_builds hResolves rest body₁).bind fun _ _ _ _ => ?_
      exact .pure trivial
    | some result =>
      refine (toWord_builds (hResult result rfl)).bind fun body₂ value _ _ => ?_
      refine (words_builds hResolves rest body₂).bind fun body₃ values _ _ => ?_
      cases values with
      | none => exact .pure trivial
      | some values => exact .pure trivial

end

end Expressions

end Building
end Slate
