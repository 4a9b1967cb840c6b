import Slate.Proofs.Machine.Safety
import Slate.Proofs.Simulation.Expression

/-! # Calls run as they are evaluated

A new frame first executes the `alloca`s of its function, which leave its slots as they are. Then it stores its
arguments, follows the evaluation of the body and returns, so a call follows what its name invokes.
-/

namespace Slate
set_option autoImplicit false

open Lowering Evaluation Machine Activation
open Draft (Usable)
open Body (Moves Stays)

section Entering

theorem Frame.putSlot_self (frame : Frame) {slot : SlotId} {word : Word}
    (h : frame.slots.get? slot = some word) : frame.putSlot slot word = frame := by
  have hRows : frame.slots.rows.setIfInBounds slot.index word = frame.slots.rows := by
    obtain ⟨hLess, hWord⟩ := Array.getElem?_eq_some_iff.mp h
    rw [Array.setIfInBounds, dif_pos hLess, ← hWord, Array.set_getElem_self]
  exact congrArg (fun rows => ({ frame with slots := ⟨rows⟩ } : Frame)) hRows

theorem advance_allocas {σ : Type} (host : Host σ) (module : Module) (limit : Nat) (callers : Callers)
    (state : σ) (ids : List SlotId) {frame : Frame} {rest : List Instruction}
    (hRest : frame.rest = ids.map Instruction.alloca ++ rest)
    (hZero : ∀ id ∈ ids, frame.slots.get? id = some 0) :
    advance host module limit ids.length (.running frame callers state) =
      .running (frame.past rest) callers state := by
  induction ids generalizing frame with
  | nil =>
    rw [List.map_nil, List.nil_append] at hRest
    rw [← hRest]
    rfl
  | cons id ids ih =>
    have hFirst : frame.rest = .alloca id :: (ids.map Instruction.alloca ++ rest) := hRest
    have hHere : (frame.past (ids.map Instruction.alloca ++ rest)).slots.get? id = some 0 :=
      hZero id List.mem_cons_self
    have hExecute : execute module (frame.past (ids.map Instruction.alloca ++ rest)) (.alloca id) =
        .ok (.resume (frame.past (ids.map Instruction.alloca ++ rest))) := by
      have hWrite := Frame.writeSlot_eq (frame.past (ids.map Instruction.alloca ++ rest))
        (Table.lt_of_get? hHere) 0
      rw [Frame.putSlot_self _ hHere] at hWrite
      rw [execute, hWrite]
      rfl
    rw [List.length_cons, Nat.add_comm, advance_add, advance_one,
      step_of_execute host limit callers state hFirst hExecute]
    exact ih rfl fun other hOther => hZero other (List.mem_cons_of_mem _ hOther)

/-- The frame of a call behind its `alloca`s. -/
def Frame.entered (f : Function) (words : List Word) (destination : Option RegisterId) : Frame :=
  ((blank f (f.codeAt ⟨0⟩) destination).withArguments (f.parameters.zip words)).past (f.bodyAt ⟨0⟩)

theorem Function.Framed.enter {f : Function} (h : f.Framed) (hSize : 0 < f.blocks.size)
    {σ : Type} (host : Host σ) (module : Module) (limit : Nat) (callers : Callers) (state : σ)
    (words : List Word) (destination : Option RegisterId) :
    ∃ n, advance host module limit n (proceed callers state (Frame.enter f words destination)) =
      .running (Frame.entered f words destination) callers state := by
  have hFirst : (⟨0⟩ : BlockId).index < f.blocks.size := hSize
  obtain ⟨block, hBlock⟩ := Table.exists_of_lt hFirst
  have hParameters : ∀ id ∈ f.parameters, id.index < f.registers.size :=
    fun id hId => Table.lt_of_get? (h.parameterTypes id hId)
  rw [Frame.enter_eq hBlock hParameters, ← f.codeAt_of_get? hBlock]
  refine ⟨_, advance_allocas host module limit callers state
    ((List.range f.slots.size).map Id.mk) ?_ ?_⟩
  · rw [Frame.rest_withArguments, List.map_map]
    exact h.code ⟨0⟩
  · intro id hId
    obtain ⟨n, hn, rfl⟩ := List.mem_map.mp hId
    have hSlot : (⟨n⟩ : SlotId).index < f.slots.size := List.mem_range.mp hn
    rw [Frame.slots_withArguments, Frame.get?_slots_blank f _ _ hSlot]

/-- All variables of a new frame are 0. -/
theorem Activation.Fit.startsAt {a : Activation} (ha : a.Fit) (words : List Word)
    (destination : Option RegisterId) (written : String) :
    a.StartsAt ⟨0⟩ { written } (Frame.entered a.function words destination) := by
  intro body hBlock hEmpty
  refine ⟨Frame.function_withArguments, ?_, ?_, ?_, ?_, ?_⟩
  · exact Frame.block_withArguments.trans hBlock.symm
  · rw [hBlock, hEmpty, List.length_nil, List.drop_zero]
    rfl
  · exact Frame.size_withArguments.trans (Frame.size_blank _ _ _)
  · change ((Frame.blank _ _ _).withArguments _).slots.size = _
    rw [Frame.slots_withArguments]
    exact Array.size_replicate
  · intro name slot hSlot
    change ((Frame.blank _ _ _).withArguments _).slots.get? slot = some 0
    rw [Frame.slots_withArguments, Frame.get?_slots_blank _ _ _ (ha.slots name slot hSlot)]

end Entering

section Parameters

variable {a : Activation} (ha : a.Fit) {context : Context}
include ha

omit ha in
theorem bindParameters_cons_of_fresh {name : Name} {body : Body}
    (h : body.scope.find? name.text = none) (register : RegisterId)
    (rest : List (Name × RegisterId)) : bindParameters ((name, register) :: rest) body =
      (slotFor name.text >>= fun slot => draft (Draft.store slot (.register register)) >>= fun _ =>
        bindParameters rest) body := by
  have hSlot : slotFor name.text body = (body.draft.function.slots.nextId,
      { body with
        draft := { body.draft with
          function := body.draft.function.newSlot ⟨0⟩ { ty := .i32, name := name.text } }
        scope := body.scope.insert name.text body.draft.function.slots.nextId }) := by
    rw [slotFor_eq, h]
  change _ = (fun result : SlotId × Body => (draft (Draft.store result.1 (.register register)) >>= fun _ =>
    bindParameters rest) result.2) (slotFor name.text body)
  rw [hSlot]
  rfl

theorem bindParameters_simulates (parameters : List (Name × RegisterId)) (words : List Word)
    {plan : Plan} {body : Body} {pre : Frame → Prop} (h : body.Ready context plan)
    (hLength : words.length = parameters.length)
    (hUsable : ∀ entry ∈ parameters, Usable plan body.draft (.register entry.2) .i32)
    (hFresh : ∀ entry ∈ parameters, body.scope.find? entry.1.text = none)
    (hNodup : (parameters.map fun entry => entry.1.text).Nodup)
    (hPre : ∀ frame, pre frame → ∀ entry ∈ parameters.zip words,
      frame.Denotes body.draft.function (.register entry.1.2) entry.2) :
    Simulates a context plan body pre (bindParameters parameters)
      (((parameters.map Prod.fst).zip words).forM fun (parameter, word) => assign parameter.text word)
      (fun _ _ _ => True) (fun _ _ _ _ => True) := by
  induction parameters generalizing words plan body pre with
  | nil => exact .pure h trivial fun _ _ => trivial
  | cons first rest ih =>
    obtain ⟨name, register⟩ := first
    cases words with
    | nil => cases hLength
    | cons word words =>
    have hHere := hFresh (name, register) List.mem_cons_self
    refine Simulates.congr ?_ (bindParameters_cons_of_fresh hHere register rest)
    refine .step h (slotFor_simulates h name.text).exactly ?_
    rintro plan₁ body₁ slot hMoves ⟨hAt, hSlot⟩
    have hRegister := (hUsable (name, register) List.mem_cons_self).flow hMoves.flow
    have hWord : ∀ frame, (∃ before, pre before ∧
        before.Keeps body.draft.function.registers.size frame ∧ True) →
        frame.Denotes body₁.draft.function (.register register) word := by
      rintro frame ⟨before, hBefore, hKeeps, -⟩
      exact (hPre before hBefore ((name, register), word) List.mem_cons_self).keeps hKeeps
        hMoves.flow.extends_.grows
    refine .bind hMoves.ready (store_simulates hMoves.ready ha hSlot hRegister hWord).exactly ?_
    rintro plan₂ body₂ _ _ hMoves' ⟨hAt', -⟩
    refine ih words hMoves'.ready (Nat.succ.inj hLength) ?_ ?_ (List.nodup_cons.mp hNodup).2 ?_
    · intro entry hEntry
      exact ((hUsable entry (List.mem_cons_of_mem _ hEntry)).flow hMoves.flow).flow hMoves'.flow
    · intro entry hEntry
      have hNe : entry.1.text ≠ name.text := by
        intro hEq
        refine (List.nodup_cons.mp hNodup).1 (List.mem_map.mpr ⟨entry, hEntry, hEq⟩)
      have hScope : body₂.scope = body.scope.insert name.text slot := by
        rw [slotFor_eq, hHere] at hAt
        cases hAt
        cases hAt'
        rfl
      rw [hScope, NameTable.find?_insert, if_neg hNe]
      exact hFresh entry (List.mem_cons_of_mem _ hEntry)
    · rintro frame ⟨middle, ⟨before, hBefore, hKeeps, -⟩, hKeeps', -⟩ entry hEntry
      exact ((hPre before hBefore entry (List.mem_cons_of_mem _ hEntry)).keeps hKeeps
        hMoves.flow.extends_.grows).keeps hKeeps' hMoves'.flow.extends_.grows

end Parameters

/-- The value of a definition, before it is returned. -/
def definitionValue (callees : Callees) (parameters : List (Name × RegisterId)) (e : Expr) :
    Lower (Option Operand) := do
  bindParameters parameters
  match ← expression callees e with
  | none => return none
  | some value => return some (← toWord value)

theorem definitionBody_eq (callees : Callees) (parameters : List (Name × RegisterId)) (e : Expr)
    (body : Body) : definitionBody callees parameters e body =
      match definitionValue callees parameters e body with
      | (none, after) => (none, after)
      | (some result, after) => (some result,
          after.withFunction (after.draft.function.add after.draft.block (.ret (some result)))) := by
  have hSplit : ∀ found : Option Operand × Body,
      (match found.1 with
        | none => pure none
        | some value => do
          let result ← toWord value
          draft (Draft.ret (some result))
          return some result : Lower (Option Operand)) found.2 =
      match (match found.1 with
        | none => pure none
        | some value => do return some (← toWord value) : Lower (Option Operand)) found.2 with
      | (none, after) => (none, after)
      | (some result, after) => (some result,
          after.withFunction (after.draft.function.add after.draft.block (.ret (some result)))) := by
    rintro ⟨_ | value, after⟩ <;> rfl
  exact hSplit (expression callees e (bindParameters parameters body).2)

section Definition

variable {a : Activation} (ha : a.Fit) {context : Context} {callees : Callees}
  {invoke : String → List Word → Eval (Option Word)} (hServes : a.Serves context callees invoke)
  {rounds : Nat} (hFuel : a.fuel ≤ rounds)

include ha hServes hFuel in
theorem definitionValue_simulates {parameters : List (Name × RegisterId)} {words : List Word}
    {plan : Plan} {body : Body} {pre : Frame → Prop} (h : body.Ready context plan)
    (hLength : words.length = parameters.length)
    (hUsable : ∀ entry ∈ parameters, Usable plan body.draft (.register entry.2) .i32)
    (hFresh : ∀ entry ∈ parameters, body.scope.find? entry.1.text = none)
    (hNodup : (parameters.map fun entry => entry.1.text).Nodup)
    (hPre : ∀ frame, pre frame → ∀ entry ∈ parameters.zip words,
      frame.Denotes body.draft.function (.register entry.1.2) entry.2)
    {e : Expr} (hWidth : e.widest ≤ context.width) :
    Simulates a context plan body pre (definitionValue callees parameters e)
      ((((parameters.map Prod.fst).zip words).forM fun (parameter, word) => assign parameter.text word) >>=
        fun _ => eval invoke rounds e)
      (fun plan' body' value => ∀ operand, value = some operand → Usable plan' body'.draft operand .i32)
      Yielding := by
  refine .bind h (bindParameters_simulates ha parameters words h hLength hUsable hFresh hNodup hPre) ?_
  intro plan₁ body₁ _ _ hMoves _
  rw [← bind_pure (eval invoke rounds e)]
  refine .bindOption hMoves.ready (expression_simulates ha hServes hFuel e hWidth plan₁ body₁ _ hMoves.ready)
    Yielding.isSome_eq ?_ ?_
  · intro plan₂ body₂ pre₂ hMoves' _
    exact .pure hMoves'.ready (fun _ hNone => by cases hNone) fun _ _ => trivial
  · intro plan₂ body₂ operand word pre₂ hMoves' hThere hPre
    obtain ⟨ty, hOperand⟩ := hThere.1 operand rfl
    have hWord : ∀ frame, pre₂ frame → frame.Denotes body₂.draft.function operand word :=
      fun frame hFrame => (hPre frame hFrame).choose_spec.2.2
    refine .step hMoves'.ready (toWord_simulates hMoves'.ready hOperand hWord) ?_
    intro plan₃ body₃ result hMoves'' hResult
    refine .pure hMoves''.ready ?_ ?_
    · intro _ hSome
      cases hSome
      exact hResult
    · rintro frame ⟨_, _, _, hDenotes⟩
      exact hDenotes

omit a context callees in
theorem definitionValue_ready {context : Context} {callees : Callees} (hCallees : callees.Agree context)
    {parameters : List (Name × RegisterId)} {plan : Plan} {body : Body} (h : body.Ready context plan)
    (hUsable : ∀ entry ∈ parameters, Usable plan body.draft (.register entry.2) .i32) {e : Expr}
    (hWidth : e.widest ≤ context.width) :
    ∃ plan', (definitionValue callees parameters e body).2.Ready context plan' := by
  have hBound := (bindParameters_spec parameters h hUsable).1
  have hLeads : Leads context plan (bindParameters parameters body).2
      (expression callees e >>= fun
        | none => pure none
        | some value => toWord value >>= fun word => pure (some word)) fun _ _ _ => True := by
    refine .bind hBound (expression_leads hCallees e hWidth plan _ hBound) ?_
    intro plan₁ body₁ value hMoves hValue
    cases value with
    | none => exact .pure hMoves.ready trivial
    | some value =>
      obtain ⟨ty, hUsable⟩ := hValue value rfl
      refine .bind hMoves.ready (toWord_leads hMoves.ready hUsable) ?_
      exact fun _ _ _ hMoves' _ => .pure hMoves'.ready trivial
  obtain ⟨plan', hMoves, -⟩ := hLeads
  exact ⟨plan', hMoves.ready⟩

end Definition

/-- A function is what a definition is lowered to, where calls stand for what `resolves` says. -/
structure Function.Defines (resolves : String → Callee → Prop) (parameters : List Name) (e : Expr)
    (f : Function) : Prop where
  nodup : (parameters.map Name.text).Nodup
  lowered : ∃ callees value final, (∀ name callee, callees name = some callee → resolves name callee) ∧
    definitionBody callees
      (parameters.zip (Function.bare f.name (.ofArity parameters.length) .external).parameters) e
      (opened f.name parameters.length) = (some value, final) ∧
    final.diagnostics = [] ∧ final.draft.function = f

theorem Evaluation.apply_eq (parameters : List Name) (arguments : List Word)
    (body : Eval (Option Word)) (store : Store) : apply parameters arguments body store =
      ((((parameters.zip arguments).forM fun (parameter, argument) => assign parameter.text argument) >>=
          fun _ => body) >>= fun result =>
        modify (fun after : Store => { after with env := store.env }) >>= fun _ => pure result)
      { store with env := fun _ => 0 } := by
  rw [bind_assoc]
  rfl

theorem Lowering.Body.Ready.fit {context : Context} {plan : Plan} {body : Body}
    (h : body.Ready context plan) {a : Activation} (hFramed : a.function.Framed)
    (hGrows : body.draft.function.Grows a.function) (hScope : a.scope = body.scope) : a.Fit where
  framed := hFramed
  slots name slot hSlot := by
    rw [hScope] at hSlot
    exact Table.lt_of_get? (hGrows.slots _ _ (h.scope name slot hSlot))
  distinct name other slot hName hOther := by
    rw [hScope] at hName hOther
    have hRow := (h.scope name slot hName).symm.trans (h.scope other slot hOther)
    exact congrArg Slot.name (Option.some.inj hRow)

/-- A frame that has come to the last instruction of its function returns. -/
theorem Activation.Stands.ret {a : Activation} {body : Body} {store : Store} {frame : Frame}
    (h : a.Stands body store frame) {result : Option Operand} {value : Option Value}
    (hBody : a.function.bodyAt body.draft.block =
      body.draft.function.bodyAt body.draft.block ++ [.ret result])
    (hExecute : ∀ rest, execute a.module (frame.past rest) (.ret result) = .ok (.ret value)) :
    advance standardHost a.module a.limit 1 (a.running frame store) =
      act standardHost a.limit frame.destination a.callers { written := store.written }
        (.ret value) := by
  have hRest := h.next (.refl a.function) hBody
  exact (advance_one _ _ _ _ _ _).trans (step_of_execute _ _ _ _ hRest (hExecute _))

/-- The parameters of a new frame stand for the arguments. -/
theorem Frame.denotes_parameter {f g : Function} (h : f.Framed) {words : List Word}
    (hLength : words.length = f.parameters.length) (destination : Option RegisterId) {id : RegisterId}
    {word : Word} (hMem : (id, word) ∈ f.parameters.zip words)
    (hType : g.registers.get? id = some .i32) :
    (Frame.entered f words destination).Denotes g (.register id) word := by
  have hNodup : f.parameters.Nodup := by
    rw [h.parameters]
    exact List.nodup_range.map fun m n hEq => congrArg Id.index hEq
  refine ⟨.int word, ⟨?_, hType⟩, rfl⟩
  rw [Frame.entered, Frame.read_past]
  exact Frame.read_of_holds _ (Frame.holds_parameter hNodup
    (fun id hId => Table.lt_of_get? (h.parameterTypes id hId)) hLength _ destination hMem)

/-- What a name in a call stands for in a finished module. -/
inductive Module.Resolves (module : Module) : String → Callee → Prop
  | host : Resolves module "puts" ⟨⟨0⟩, hostFunction.signature⟩
  | written {id : FunctionId} {f : Function} (found : module.get? id = some f)
      (name : isReserved f.name = false) : Resolves module f.name ⟨id, f.signature⟩

namespace Module.Lowered

variable {width : Nat} {module : Module} (h : module.Lowered width)
include h

theorem written_of_name {id : FunctionId} {f : Function} (hFound : module.get? id = some f)
    (hName : isReserved f.name = false) : f.Written ⟨module.signature?, width⟩ := by
  refine h.written id f hFound ?_ ?_
  · rintro rfl
    cases hFound.symm.trans h.host
    cases hName
  · rintro rfl
    obtain ⟨entry, plan, hEntry, hEntryName, -⟩ := h.entry
    cases hFound.symm.trans hEntry
    rw [hEntryName] at hName
    cases hName

theorem agree {callees : Callees}
    (hCallees : ∀ name callee, callees name = some callee → module.Resolves name callee) :
    callees.Agree ⟨module.signature?, width⟩ := by
  intro name callee hCallee
  cases hCallees name callee hCallee with
  | host => exact congrArg (Option.map Function.signature) h.host
  | written hFound _ => exact congrArg (Option.map Function.signature) hFound

theorem serves {a : Activation} {callees : Callees} {invoke : String → List Word → Eval (Option Word)}
    (hCallees : ∀ name callee, callees name = some callee → module.Resolves name callee)
    (hAnswers : ∀ name callee, module.Resolves name callee → a.Answers invoke name callee) :
    a.Serves ⟨module.signature?, width⟩ callees invoke where
  agree := h.agree hCallees
  answers name callee hCallee := hAnswers name callee (hCallees name callee hCallee)
  result name callee hCallee := by
    cases hCallees name callee hCallee with
    | host => rfl
    | @written id f hFound hName =>
      have hPuts : f.name ≠ "puts" := by
        intro hEq
        rw [hEq] at hName
        cases hName
      rw [if_neg hPuts, (h.written_of_name hFound hName).signature]
      rfl

/-- A definition returns its value in the block where its lowering ends. -/
theorem compiled {f : Function} {parameters : List Name} {e : Expr}
    (hDefines : f.Defines module.Resolves parameters e) (hWidth : e.widest ≤ width) :
    ∃ callees operand body plan,
      (∀ name callee, callees name = some callee → module.Resolves name callee) ∧
      definitionValue callees
        (parameters.zip (Function.bare f.name (.ofArity parameters.length) .external).parameters) e
        (opened f.name parameters.length) = (some operand, body) ∧
      body.diagnostics = [] ∧ body.Ready ⟨module.signature?, width⟩ plan ∧
      (opened f.name parameters.length).draft.function.Grows f ∧ f.Framed ∧
      body.draft.function.Grows f ∧
      f.bodyAt body.draft.block = body.draft.function.bodyAt body.draft.block ++ [.ret (some operand)] := by
  obtain ⟨callees, value, final, hCallees, hFinal, hClean, hFunction⟩ := hDefines.lowered
  have hAgree := h.agree hCallees
  obtain ⟨plan, hBody⟩ := definitionValue_ready hAgree (opened_ready ⟨module.signature?, width⟩ f.name _)
    (opened_usable f.name parameters.length parameters) hWidth
  obtain ⟨hOpened, plan', hStaged, -⟩ :=
    definitionBody_opened hAgree f.name parameters.length parameters hWidth hFinal
  rw [hFunction] at hOpened hStaged
  rw [definitionBody_eq] at hFinal
  match hValue : definitionValue callees
    (parameters.zip (Function.bare f.name (.ofArity parameters.length) .external).parameters) e
    (opened f.name parameters.length), hFinal with
  | (some operand, body), hFinal =>
    rw [hValue] at hBody
    have hHere : body.draft.block.index < body.draft.function.blocks.size := hBody.draft.block_lt
    have hEq : body.draft.function.add body.draft.block (.ret (some operand)) = f := by
      cases hFinal
      exact hFunction
    refine ⟨callees, operand, body, plan, hCallees, hValue, ?_, hBody, hOpened, hStaged.sound.framed,
      hEq ▸ Function.grows_add hHere rfl, ?_⟩
    · cases hFinal
      exact hClean
    · rw [← hEq]
      exact bodyAt_append hHere rfl rfl

theorem length_parameters {f : Function} {parameters : List Name} {e : Expr}
    (hDefines : f.Defines module.Resolves parameters e) (hWidth : e.widest ≤ width) :
    f.parameters.length = parameters.length := by
  obtain ⟨_, _, _, _, -, -, -, -, hOpened, -⟩ := h.compiled hDefines hWidth
  rw [hOpened.parameters]
  simp [opened, Function.newBlock, Function.bare, Signature.ofArity]

/-- A function that was entered with the arguments of a call follows the evaluation of its body and returns
its value. -/
theorem enter_follows {f : Function} {parameters : List Name} {e : Expr}
    (hDefines : f.Defines module.Resolves parameters e) (hWidth : e.widest ≤ width) {limit fuel : Nat}
    {callers : Callers} {invoke : String → List Word → Eval (Option Word)}
    (hAnswers : ∀ scope name callee, module.Resolves name callee →
      (⟨module, limit, fuel, callers, f, scope⟩ : Activation).Answers invoke name callee)
    {words : List Word} (hLength : words.length = parameters.length) (destination : Option RegisterId)
    (store : Store) :
    Follows module limit fuel
      (proceed callers { written := store.written } (Frame.enter f words destination))
      (fun result after p => after.env = store.env ∧ ∃ word, result = some word ∧
        p = act standardHost limit destination callers { written := after.written }
          (.ret (some (.int word))))
      (Evaluation.apply parameters words (eval invoke fuel e) store) := by
  obtain ⟨callees, operand, body, plan, hCallees, hValue, hClean, hBody, hOpened, hFramed, hGrows, hRet⟩ :=
    h.compiled hDefines hWidth
  let registers := (Function.bare f.name (.ofArity parameters.length) .external).parameters
  let a : Activation := ⟨module, limit, fuel, callers, f, body.scope⟩
  have ha : a.Fit := hBody.fit hFramed hGrows rfl
  have hUsable := opened_usable f.name parameters.length parameters
  have hRegisters : f.parameters = registers := hOpened.parameters
  have hLengths : registers.length = parameters.length := by
    simp [registers, Function.bare, Signature.ofArity]
  have hPairs : (parameters.zip registers).map Prod.fst = parameters := List.map_fst_zip hLengths.ge
  have hSnd : (parameters.zip registers).map Prod.snd = registers := List.map_snd_zip hLengths.le
  have hNames : ((parameters.zip registers).map fun entry => entry.1.text).Nodup := by
    have hNodup := hDefines.nodup
    rwa [← hPairs, List.map_map] at hNodup
  have hStart : ∀ frame, frame = Frame.entered f words destination →
      ∀ entry ∈ (parameters.zip registers).zip words,
        frame.Denotes (opened f.name parameters.length).draft.function (.register entry.1.2) entry.2 := by
    rintro _ rfl ⟨⟨parameter, id⟩, word⟩ hEntry
    have hMem : (id, word) ∈ f.parameters.zip words := by
      rw [hRegisters, ← hSnd, List.zip_map_left]
      exact List.mem_map_of_mem hEntry
    refine Frame.denotes_parameter hFramed (by rw [hRegisters, hLengths, hLength]) destination hMem ?_
    exact (hUsable (parameter, id) (List.of_mem_zip hEntry).1).typed
  have hSimulates := definitionValue_simulates ha (h.serves hCallees (hAnswers body.scope))
    (Nat.le_refl fuel) (opened_ready _ f.name parameters.length)
    (by rw [List.length_zip, hLengths, min_self, hLength]) hUsable (fun _ _ => NameTable.find?_empty _)
    hNames hStart hWidth
  rw [hPairs] at hSimulates
  have hFollows := hSimulates.2 (by rw [hValue]; exact ⟨hGrows, fun _ _ hSlot => hSlot, hClean⟩)
    (Frame.entered f words destination) { written := store.written }
    (ha.startsAt words destination _ _ rfl (Function.bodyAt_open _ _ _ _)) rfl
  obtain ⟨n, hEnter⟩ := hFramed.enter
    (Nat.lt_of_lt_of_le (Nat.zero_lt_of_lt hBody.draft.block_lt) hGrows.blocks) standardHost module limit
    callers { written := store.written } words destination
  refine .after hEnter (Nat.le_add_left _ _) ?_
  rw [apply_eq]
  refine .bind hFollows ?_
  rintro result after _ ⟨next, rfl, hStands, hKeeps, hYields⟩
  obtain ⟨plan', hMoves, hWord⟩ := hSimulates.1
  rw [hValue] at hStands hYields hWord
  cases result with
  | none => cases hYields
  | some word =>
    obtain ⟨value, ⟨hRead, hType⟩, hEq⟩ := hYields
    have hInt : value = .int word := by
      rw [(hWord operand rfl).typed] at hType
      cases value with
      | int found => exact congrArg Value.int hEq
      | bool _ => cases hType
    have hExecute : ∀ rest, execute module (next.past rest) (.ret (some operand)) =
        .ok (.ret (some (.int word))) := by
      intro rest
      rw [execute, Frame.read_past, hRead, hInt]
      rfl
    have hDestination : next.destination = destination :=
      hKeeps.destination.trans Frame.destination_withArguments
    refine .after (hStands.ret hRet hExecute) (Nat.le_add_left _ _) (.now ⟨rfl, word, rfl, ?_⟩)
    rw [hDestination]

end Module.Lowered

section Host

variable {σ : Type} {host : Host σ} {symbol : String} {arguments : List Word} {state after : σ}

theorem act_host_ok {result : Option Word} (h : host.call symbol arguments state = (.ok result, after))
    (limit : Nat) (destination : Option RegisterId) (callers : Callers) (frame : Frame)
    (register : Option RegisterId) :
    act host limit destination callers state (.host frame symbol arguments register) =
      proceed callers after (frame.receive register (result.map Value.int)) := by
  rw [act, h]

theorem act_host_error {error : ExecutionError}
    (h : host.call symbol arguments state = (.error error, after)) (limit : Nat)
    (destination : Option RegisterId) (callers : Callers) (frame : Frame)
    (register : Option RegisterId) :
    act host limit destination callers state (.host frame symbol arguments register) =
      .halted (.error (.error error)) after := by
  rw [act, h]

end Host

/-- A call that executes at once: the callee is in the module and all operands can be read. -/
theorem Activation.advance_call (a : Activation) (store : Store) {frame : Frame} {id : FunctionId}
    {operands : List Operand} {destination : Option RegisterId} {rest : List Instruction}
    (hRest : frame.rest = .call id operands destination :: rest) {f : Function}
    (hFound : a.module.get? id = some f) {words : List Word}
    (hReads : operands.Forall₂ (fun operand word => (frame.past rest).readWord operand = .ok word) words) :
    advance standardHost a.module a.limit 1 (a.running frame store) =
      act standardHost a.limit frame.destination a.callers { written := store.written }
        (if f.isDeclaration then .host (frame.past rest) f.name words destination
        else .call (frame.past rest) f words destination) := by
  refine (advance_one _ _ _ _ _ _).trans (step_of_execute _ _ _ _ hRest ?_)
  simp only [execute]
  rw [hFound]
  dsimp only
  rw [Frame.mapM_readWord hReads]
  split <;> rfl

theorem Evaluation.print_eq (words : List Word) (store : Store) : print words store =
    if words.length < 2 ^ 31 then
      (.ok none, { store with written := store.written ++ line words })
    else (.error (.error (.argumentCountMismatch "_puts"
      ((Int32.ofInt words.length).toInt.toNat + 1) (words.length + 1))), store) := by
  rw [print]
  split <;> rfl

/-- What the host does with words and their count. -/
theorem puts_counted (words : List Word) (written : String) :
    puts Sink.write (Int32.ofInt words.length :: words) { written } =
      if words.length < 2 ^ 31 then (.ok none, { written := written ++ line words })
      else (.error (.argumentCountMismatch "_puts"
        ((Int32.ofInt words.length).toInt.toNat + 1) (words.length + 1)), { written }) := by
  have hCount : (Int32.ofInt words.length).toInt = words.length ↔ words.length < 2 ^ 31 := by
    constructor
    · intro hEq
      have hLess := Int32.toInt_lt (Int32.ofInt words.length)
      omega
    · intro hLess
      refine Int32.toInt_ofInt_of_le ?_ ?_ <;> omega
  rw [puts, line_eq_putsLine]
  by_cases hLess : words.length < 2 ^ 31
  · rw [if_pos (hCount.mpr hLess), if_pos hLess]
    rfl
  · rw [if_neg (mt hCount.mp hLess), if_neg hLess]
    rfl

/-- A module has the definitions of a program, and no others. -/
structure Module.Realizes (width : Nat) (program : List Item) (module : Module) : Prop where
  lowered : module.Lowered width
  defined : ∀ name parameters e, definition? program name = some (parameters, e) →
    e.widest ≤ width ∧ isReserved name = false ∧ ∃ id f, module.get? id = some f ∧ f.name = name ∧
      f.isDeclaration = false ∧ f.Defines module.Resolves parameters e
  declared : ∀ id f, module.get? id = some f → isReserved f.name = false →
    definition? program f.name = none → f.isDeclaration = true

namespace Module.Realizes

variable {width : Nat} {program : List Item} {module : Module} (h : module.Realizes width program)
include h

theorem answers_puts {a : Activation} (hModule : a.module = module) (fuel live : Nat) :
    a.Answers (invoke program a.limit fuel live) "puts" ⟨⟨0⟩, hostFunction.signature⟩ := by
  intro frame store arguments words destination rest hRest _ hReads hDestination
  have hNone : destination = none := by
    cases destination with
    | none => rfl
    | some _ => exact absurd rfl (hDestination.mp rfl)
  subst hNone
  have hFound : a.module.get? ⟨0⟩ = some hostFunction := hModule ▸ h.lowered.host
  have hWords : ((⟨⟨0⟩, hostFunction.signature⟩ : Callee).passed arguments).Forall₂
      (fun operand word => (frame.past rest).readWord operand = .ok word)
      (Int32.ofInt words.length :: words) := by
    rw [← hReads.length_eq]
    exact .cons rfl hReads
  have hStep := a.advance_call store hRest hFound hWords
  rw [invoke, if_pos rfl, print_eq]
  refine .after hStep (Nat.le_add_left _ _) ?_
  have hPuts : standardHost.call "_puts" (Int32.ofInt words.length :: words) { written := store.written } = _ :=
    puts_counted words store.written
  rw [if_pos (show hostFunction.isDeclaration = true from rfl)]
  by_cases hLess : words.length < 2 ^ 31
  · rw [if_pos hLess] at hPuts ⊢
    exact .now ⟨rfl, rfl, act_host_ok hPuts _ _ _ _ _⟩
  · rw [if_neg hLess] at hPuts ⊢
    exact .halt (act_host_error hPuts _ _ _ _ _)

/-- A function of the program that calls can refer to takes its arguments as they are. -/
theorem passed_written {id : FunctionId} {f : Function} (hFound : module.get? id = some f)
    (hName : isReserved f.name = false) (arguments : List Operand) :
    (⟨id, f.signature⟩ : Callee).passed arguments = arguments ∧
      ((⟨id, f.signature⟩ : Callee).Accepts arguments.length →
        arguments.length = f.parameters.length) := by
  have hSignature := (h.lowered.written_of_name hFound hName).signature
  rw [Callee.passed, Callee.Accepts, hSignature]
  refine ⟨rfl, fun hAccepts => hAccepts.trans ?_⟩
  simp [Signature.visibleArity, Signature.ofArity]

theorem answers_declared {a : Activation} (hModule : a.module = module) {id : FunctionId} {f : Function}
    (hFound : module.get? id = some f) (hName : isReserved f.name = false)
    (hDefinition : definition? program f.name = none) (fuel live : Nat) :
    a.Answers (invoke program a.limit fuel live) f.name ⟨id, f.signature⟩ := by
  intro frame store arguments words destination rest hRest _ hReads _
  rw [(h.passed_written hFound hName arguments).1] at hRest
  have hStep := a.advance_call store hRest (hModule ▸ hFound) hReads
  rw [if_pos (h.declared id f hFound hName hDefinition)] at hStep
  have hSymbol : f.name ≠ "_puts" ∧ f.name ≠ "puts" := by
    constructor <;> intro hEq <;> rw [hEq] at hName <;> cases hName
  rw [invoke, if_neg hSymbol.2, hDefinition]
  have hHost : standardHost.call f.name words { written := store.written } =
      (.error (.unresolvedExternal f.name), { written := store.written }) := if_neg hSymbol.1
  exact .after hStep (Nat.le_add_left a.fuel _) (.halt (act_host_error hHost _ _ _ _ _))

theorem answers_defined {a : Activation} (hModule : a.module = module) {id : FunctionId} {f : Function}
    (hFound : module.get? id = some f) (hName : isReserved f.name = false) {parameters : List Name} {e : Expr}
    (hDefinition : definition? program f.name = some (parameters, e)) {fuel : Nat} (hFuel : a.fuel ≤ fuel)
    (hInner : ∀ inner, fuel = inner + 1 → ∀ callers : Callers, callers.depth = a.callers.depth + 1 →
      ∀ scope name callee, module.Resolves name callee →
        (⟨module, a.limit, inner, callers, f, scope⟩ : Activation).Answers
          (invoke program a.limit inner (a.callers.depth + 1 + 1)) name callee) :
    a.Answers (invoke program a.limit fuel (a.callers.depth + 1)) f.name ⟨id, f.signature⟩ := by
  intro frame store arguments words destination rest hRest hAccepts hReads hDestination
  obtain ⟨hPassed, hArity⟩ := h.passed_written hFound hName arguments
  rw [hPassed] at hRest
  obtain ⟨hWidth, -, other, f', hFound', hName', hBody, hDefines⟩ := h.defined _ _ _ hDefinition
  cases h.lowered.unique _ _ _ _ hFound hFound' hName'.symm
  cases hFound.symm.trans hFound'
  have hStep := a.advance_call store hRest (hModule ▸ hFound) hReads
  rw [if_neg (by rw [hBody]; exact Bool.false_ne_true)] at hStep
  have hPuts : f.name ≠ "puts" := by
    intro hEq
    rw [hEq] at hName
    cases hName
  rw [invoke, if_neg hPuts, hDefinition]
  dsimp only
  by_cases hDepth : a.limit ≤ a.callers.depth + 1
  · rw [if_pos (max_le hDepth (Nat.le_add_left 1 _))]
    exact .after hStep (Nat.le_add_left a.fuel _) (.halt (if_pos hDepth))
  · rw [if_neg fun hMax => hDepth ((le_max_left _ _).trans hMax)]
    cases fuel with
    | zero => exact ⟨0, hFuel, _, _, _, advance_zero _ _ _ _⟩
    | succ inner =>
      have hLength : words.length = parameters.length := by
        rw [← hReads.length_eq, hArity hAccepts, h.lowered.length_parameters hDefines hWidth]
      have hEnter : act standardHost a.limit frame.destination a.callers { written := store.written }
          (.call (frame.past rest) f words destination) =
          proceed (a.callers.push (frame.past rest)) { written := store.written }
            (Frame.enter f words destination) := if_neg hDepth
      have hFollows := h.lowered.enter_follows hDefines hWidth
        (hInner inner rfl (a.callers.push (frame.past rest)) rfl) hLength destination store
      subst hModule
      refine .after (hStep.trans hEnter) (Nat.add_comm inner 1 ▸ hFuel) (hFollows.mono ?_)
      rintro _ after _ ⟨hEnv, word, rfl, rfl⟩
      have hResult : f.signature.result ≠ .void := by
        rw [(h.lowered.written_of_name hFound hName).signature]
        exact Ty.noConfusion
      exact ⟨hEnv, (hDestination.mpr hResult).symm, rfl⟩

/-- Calls follow what their names invoke, with fuel for as long as the run has to last. -/
theorem answers (limit : Nat) {fuel k : Nat} (hFuel : k ≤ fuel) (callers : Callers) (f : Function)
    (scope : NameTable SlotId) {name : String} {callee : Callee}
    (hCallee : module.Resolves name callee) :
    (⟨module, limit, k, callers, f, scope⟩ : Activation).Answers
      (invoke program limit fuel (callers.depth + 1)) name callee := by
  induction fuel using Nat.strongRecOn generalizing k callers f scope name callee with
  | ind fuel ih =>
    cases hCallee with
    | host => exact h.answers_puts rfl _ _
    | @written id g hFound hName =>
      cases hDefinition : definition? program g.name with
      | none => exact h.answers_declared rfl hFound hName hDefinition _ _
      | some definition =>
        refine h.answers_defined rfl hFound hName hDefinition hFuel ?_
        intro inner hInner callers' hDepth scope name callee hCallee
        rw [← hDepth]
        exact ih inner (hInner ▸ Nat.lt_succ_self inner) (Nat.le_refl inner) callers' g scope hCallee

end Module.Realizes

end Slate
