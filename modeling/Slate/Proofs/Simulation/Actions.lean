import Slate.Proofs.Simulation.Basic

/-! # What emitted instructions do

Each action of lowering that stays in a block simulates what its instructions compute.
-/

namespace Slate
set_option autoImplicit false

open Lowering Evaluation Machine Activation
open Draft (Usable)
open Body (Moves Stays)

namespace Activation

variable {a : Activation} {context : Context} {plan : Plan} {body : Body} {store : Store} {frame : Frame}

/-- The instruction that lowering added is the next one to execute. -/
theorem Stands.next (h : a.Stands body store frame) {f : Function} (hGrows : f.Grows a.function)
    {instruction : Instruction} (hBody : f.bodyAt body.draft.block =
      body.draft.function.bodyAt body.draft.block ++ [instruction]) :
    frame.rest = instruction ::
      (a.function.bodyAt body.draft.block).drop (f.bodyAt body.draft.block).length := by
  obtain ⟨tail, hTail⟩ := hGrows.body body.draft.block
  rw [h.rest, ← hTail, hBody]
  simp

theorem advance_resume (a : Activation) (store : Store) {frame next : Frame} {instruction : Instruction}
    {rest : List Instruction} (hRest : frame.rest = instruction :: rest)
    (hExecute : execute a.module (frame.past rest) instruction = .ok (.resume next)) :
    advance standardHost a.module a.limit 1 (a.running frame store) = a.running next store := by
  rw [running, advance_one, step_of_execute _ _ _ _ hRest hExecute]
  rfl

theorem bodyAt_append {f : Function} {block : BlockId} (hBlock : block.index < f.blocks.size)
    {instruction : Instruction} (hAlloca : instruction.isAlloca = false)
    (hTargets : instruction.targets = []) :
    (f.append block instruction).bodyAt block = f.bodyAt block ++ [instruction] := by
  rw [← Function.add_eq_append _ _ hTargets, Function.bodyAt_add _ hBlock hAlloca, if_pos rfl]

/-- An instruction that writes a fresh register is the next one, and whatever it writes, the frame then
stands behind it. -/
theorem Stands.put (h : a.Stands body store frame)
    (hHere : body.draft.block.index < body.draft.function.blocks.size) {ty : Ty}
    {instruction : Instruction} (hAlloca : instruction.isAlloca = false)
    (hTargets : instruction.targets = [])
    (hStage : a.Stage (body.withFunction
      ((body.draft.function.newRegister ty).append body.draft.block instruction))) :
    ∃ rest, frame.rest = instruction :: rest ∧ ∀ value after, value.ty = ty → after.env = store.env →
      ∃ next, (frame.past rest).write body.draft.function.registers.nextId value = .ok next ∧
        a.Stands (body.withFunction
          ((body.draft.function.newRegister ty).append body.draft.block instruction)) after next ∧
        frame.Keeps body.draft.function.registers.size next ∧
        next.Reads ((body.draft.function.newRegister ty).append body.draft.block instruction)
          (.register body.draft.function.registers.nextId) value := by
  have hRest := h.next hStage.grows
    (bodyAt_append (f := body.draft.function.newRegister ty) hHere hAlloca hTargets)
  have hType : ((body.draft.function.newRegister ty).append body.draft.block instruction).registers.get?
      body.draft.function.registers.nextId = some ty :=
    (Table.get?_push _ _ _).trans (if_pos rfl)
  have hSize : body.draft.function.registers.nextId.index < frame.registers.size := by
    rw [h.registers]
    exact Table.lt_of_get? (hStage.grows.registers _ _ hType)
  generalize hDrop : List.drop _ _ = rest at hRest
  refine ⟨rest, hRest, fun value after hTy hEnv => ⟨_, (frame.past rest).write_eq hSize value, ?_,
    ⟨rfl, ?_⟩, ?_⟩⟩
  · refine ⟨h.function, h.block, hDrop.symm, (Frame.size_put _ _ _).trans h.registers, h.slots, ?_⟩
    rw [hEnv]
    exact h.env
  · intro id found hId hHolds
    exact (Frame.holds_put_of_ne _ hSize value (Id.ne_of_index_lt hId)).mpr hHolds
  · refine ⟨Frame.read_of_holds _ (Frame.holds_put _ hSize value), ?_⟩
    rw [hTy]
    exact hType

theorem Stands.emit (h : a.Stands body store frame)
    (hHere : body.draft.block.index < body.draft.function.blocks.size) {ty : Ty}
    {instruction : Instruction} (hAlloca : instruction.isAlloca = false)
    (hTargets : instruction.targets = []) (value : Value) (hTy : value.ty = ty)
    (hStage : a.Stage (body.withFunction
      ((body.draft.function.newRegister ty).append body.draft.block instruction)))
    (hExecute : ∀ rest, execute a.module (frame.past rest) instruction =
      (frame.past rest).write body.draft.function.registers.nextId value >>=
        fun next => pure (.resume next)) :
    ∃ next, advance standardHost a.module a.limit 1 (a.running frame store) = a.running next store ∧
      a.Stands (body.withFunction
        ((body.draft.function.newRegister ty).append body.draft.block instruction)) store next ∧
      frame.Keeps body.draft.function.registers.size next ∧
      next.Reads ((body.draft.function.newRegister ty).append body.draft.block instruction)
        (.register body.draft.function.registers.nextId) value := by
  obtain ⟨rest, hRest, hPut⟩ := h.put hHere hAlloca hTargets hStage
  obtain ⟨next, hWrite, hNext⟩ := hPut value store hTy rfl
  refine ⟨next, a.advance_resume store hRest ?_, hNext⟩
  rw [hExecute, hWrite]
  rfl

end Activation

section Straight

variable {a : Activation} {context : Context} {plan : Plan} {body : Body} {pre : Frame → Prop}
  (h : body.Ready context plan)
include h

/-- An instruction that computes a word from what is known of the frame. -/
theorem emitResult_simulates {ty : Ty} (instruction : RegisterId → Instruction)
    (hStays : let result := draft (Draft.emitResult ty instruction) body
      Stays context plan body result.2 ∧ Usable plan result.2.draft result.1 ty)
    (hAlloca : ∀ id, (instruction id).isAlloca = false) (hTargets : ∀ id, (instruction id).targets = [])
    (value : Value) (hTy : value.ty = ty)
    (hExecute : ∀ frame rest, pre frame → ∀ id, execute a.module (frame.past rest) (instruction id) =
      (frame.past rest).write id value >>= fun next => pure (.resume next)) :
    Simulates a context plan body pre (draft (Draft.emitResult ty instruction)) (pure ())
      (fun plan' body' operand => Usable plan' body'.draft operand ty)
      (fun body' operand _ frame => frame.Reads body'.draft.function operand value) := by
  refine ⟨⟨plan, hStays.1.toMoves, hStays.2⟩, fun hStage frame store hStands hPre => ?_⟩
  obtain ⟨next, hStep, hNext, hKeeps, hReads⟩ := hStands.emit h.draft.block_lt (hAlloca _) (hTargets _)
    value hTy hStage fun rest => hExecute frame rest hPre _
  exact .after hStep (Nat.le_add_left _ _) (.now ⟨next, rfl, hNext, hKeeps, hReads⟩)

theorem arith_simulates (op : Arith) {lhs rhs : Operand} (hLeft : Usable plan body.draft lhs .i32)
    (hRight : Usable plan body.draft rhs .i32) {x y : Word}
    (hPre : ∀ frame, pre frame → frame.Denotes body.draft.function lhs x ∧
      frame.Denotes body.draft.function rhs y) :
    Simulates a context plan body pre (draft (Draft.arith op lhs rhs)) (pure ())
      (fun plan' body' operand => Usable plan' body'.draft operand .i32)
      (fun body' operand _ frame =>
        frame.Reads body'.draft.function operand (.int (op.apply x y))) := by
  refine emitResult_simulates h _ (arith_stays h op hLeft hRight) (fun _ => rfl) (fun _ => rfl)
    (.int (op.apply x y)) rfl ?_
  intro frame rest hFrame id
  simp only [execute]
  rw [(hPre frame hFrame).1.readWord, (hPre frame hFrame).2.readWord]
  rfl

theorem compare_simulates (predicate : Predicate) {lhs rhs : Operand} {ty : Ty}
    (hLeft : Usable plan body.draft lhs ty) (hRight : Usable plan body.draft rhs ty) {x y : Word}
    (hPre : ∀ frame, pre frame → frame.Denotes body.draft.function lhs x ∧
      frame.Denotes body.draft.function rhs y) :
    Simulates a context plan body pre (draft (Draft.compare predicate lhs rhs)) (pure ())
      (fun plan' body' operand => Usable plan' body'.draft operand .i1)
      (fun body' operand _ frame =>
        frame.Reads body'.draft.function operand (.bool (predicate.apply x y))) := by
  refine emitResult_simulates h _ (compare_stays h predicate hLeft hRight) (fun _ => rfl)
    (fun _ => rfl) (.bool (predicate.apply x y)) rfl ?_
  intro frame rest hFrame id
  simp only [execute]
  rw [(hPre frame hFrame).1.readWord, (hPre frame hFrame).2.readWord]
  rfl

theorem toWord_simulates {value : Operand} {ty : Ty} (hValue : Usable plan body.draft value ty)
    {x : Word} (hPre : ∀ frame, pre frame → frame.Denotes body.draft.function value x) :
    Simulates a context plan body pre (toWord value) (pure ())
      (fun plan' body' operand => Usable plan' body'.draft operand .i32)
      (fun body' operand _ frame => frame.Denotes body'.draft.function operand x) := by
  have hTyped := hValue.typed
  rcases usable_ty h hValue with rfl | rfl
  · have hStays := toWord_stays h hValue
    have hEq : toWord value body = draft (Draft.extend value .i32) body := by
      rw [toWord, isBit_bind, hTyped]
      rfl
    rw [hEq] at hStays
    refine (Simulates.post_mono (emitResult_simulates h _ hStays (fun _ => rfl) (fun _ => rfl) (.int x) rfl
      ?_) (fun _ _ _ hUsable => hUsable) (fun _ _ _ _ hReads => ⟨_, hReads, rfl⟩)).congr hEq
    intro frame rest hFrame id
    simp only [execute]
    rw [(hPre frame hFrame).readWord]
    rfl
  · have hEq : toWord value body = (pure value : Lower Operand) body := by
      rw [toWord, isBit_bind, hTyped]
      rfl
    exact (Simulates.pure h hValue fun frame hFrame => hPre frame hFrame).congr hEq

theorem isTruthy_simulates {value : Operand} {ty : Ty} (hValue : Usable plan body.draft value ty)
    {x : Word} (hPre : ∀ frame, pre frame → frame.Denotes body.draft.function value x) :
    Simulates a context plan body pre (isTruthy value) (pure ())
      (fun plan' body' operand => Usable plan' body'.draft operand .i1)
      (fun body' operand _ frame =>
        frame.Reads body'.draft.function operand (.bool (decide (x ≠ 0)))) := by
  have hTyped := hValue.typed
  rcases usable_ty h hValue with rfl | rfl
  · refine (compare_simulates h .ne hValue (Draft.usable_const plan _ (.bool false)) fun frame hFrame =>
      ⟨hPre frame hFrame, frame.denotes_const _ _⟩).congr ?_
    rw [isTruthy, isBit_bind, hTyped]
    rfl
  · refine (compare_simulates h .ne hValue (Draft.usable_const plan _ (.int 0)) fun frame hFrame =>
      ⟨hPre frame hFrame, frame.denotes_const _ _⟩).congr ?_
    rw [isTruthy, isBit_bind, hTyped]
    rfl

/-- A one-bit value is true if it is 1, which is to say that it is not 0. -/
theorem isTrue_simulates {value : Operand} {ty : Ty} (hValue : Usable plan body.draft value ty)
    {x : Word} (hPre : ∀ frame, pre frame → frame.Denotes body.draft.function value x) :
    Simulates a context plan body pre (isTrue value) (pure ())
      (fun plan' body' operand => Usable plan' body'.draft operand .i1)
      (fun body' operand _ frame =>
        frame.Reads body'.draft.function operand (.bool (decide (x ≠ 0)))) := by
  have hTyped := hValue.typed
  rcases usable_ty h hValue with rfl | rfl
  · have hBit : ∀ frame : Frame, frame.Denotes body.draft.function value x →
        Predicate.eq.apply x 1 = decide (x ≠ 0) := by
      rintro frame ⟨found, ⟨-, hTy⟩, rfl⟩
      rw [hTyped, Option.some.injEq] at hTy
      cases found with
      | int word => cases hTy
      | bool bit => cases bit <;> rfl
    have hEqual : Simulates a context plan body pre (Lowering.isTrue value) (Pure.pure ())
        (fun plan' body' operand => Usable plan' body'.draft operand .i1)
        (fun body' operand _ frame =>
          frame.Reads body'.draft.function operand (.bool (Predicate.eq.apply x 1))) := by
      refine (compare_simulates h .eq hValue (Draft.usable_const plan _ (.bool true)) fun frame hFrame =>
        ⟨hPre frame hFrame, frame.denotes_const _ _⟩).congr ?_
      rw [Lowering.isTrue, isBit_bind, hTyped]
      rfl
    by_cases hSome : ∃ frame, pre frame
    · obtain ⟨some, hFrame⟩ := hSome
      rw [hBit some (hPre some hFrame)] at hEqual
      exact hEqual
    · exact hEqual.vacuous fun frame hFrame => hSome ⟨frame, hFrame⟩
  · refine (compare_simulates h .ne hValue (Draft.usable_const plan _ (.int 0)) fun frame hFrame =>
      ⟨hPre frame hFrame, frame.denotes_const _ _⟩).congr ?_
    rw [Lowering.isTrue, isBit_bind, hTyped]
    rfl

/-- The same of a value that may be missing in the frame. -/
theorem widen_simulates {value : Operand} {ty : Ty} (hValue : Usable plan body.draft value ty)
    {x : Option Word} (hPre : ∀ frame, pre frame → frame.Yields body.draft.function (some value) x) :
    Simulates a context plan body pre (toWord value) (Pure.pure ())
      (fun plan' body' operand => Usable plan' body'.draft operand .i32)
      (fun body' operand _ frame => frame.Yields body'.draft.function (some operand) x) := by
  cases x with
  | none => exact (toWord_simulates h hValue (x := 0) fun _ => False.elim).vacuous hPre
  | some word => exact toWord_simulates h hValue hPre

omit h in
theorem wordPair_bind {γ : Type} (left : Operand) (right : Option Operand)
    (next : Option (Operand × Operand) → Lower γ) (body : Body) :
    (wordPair (some left) right >>= next) body = (toWord left >>= fun first =>
      match right with
      | none => next none
      | some right => toWord right >>= fun second => next (some (first, second))) body := by
  cases right <;> rfl

/-- Two operands are widened and combined, if both have values. -/
theorem pair_simulates {left right : Option Operand} (hLeft : Valued plan body left)
    (hRight : Valued plan body right) {x y : Option Word}
    (hPre : ∀ frame, pre frame → frame.Yields body.draft.function left x ∧
      frame.Yields body.draft.function right y) (emit : Operand → Operand → Lower Operand)
    (combine : Word → Word → Word)
    (hEmit : ∀ {plan body} {pre : Frame → Prop} {first second u v}, body.Ready context plan →
      Usable plan body.draft first .i32 → Usable plan body.draft second .i32 →
      (∀ frame, pre frame → frame.Denotes body.draft.function first u ∧
        frame.Denotes body.draft.function second v) →
      Simulates a context plan body pre (emit first second) (Pure.pure ())
        (fun plan' body' operand => ∃ ty, Usable plan' body'.draft operand ty)
        (fun body' operand _ frame =>
          frame.Denotes body'.draft.function operand (combine u v))) :
    Simulates a context plan body pre
      (wordPair left right >>= fun
        | none => Pure.pure none
        | some (first, second) => emit first second >>= fun value => Pure.pure (some value))
      (Pure.pure (x.bind fun u => y.map fun v => combine u v))
      (fun plan' body' value => Valued plan' body' value ∧
        value.isSome = (left.isSome && right.isSome))
      Yielding := by
  cases left with
  | none =>
    refine Simulates.congr (Simulates.pure h ⟨valued_none plan body, rfl⟩ fun frame hFrame => ?_) rfl
    match x, (hPre frame hFrame).1 with
    | none, _ => trivial
  | some left =>
    obtain ⟨leftTy, hLeft⟩ := hLeft left rfl
    refine Simulates.congr (.step h (widen_simulates h hLeft fun frame hFrame => (hPre frame hFrame).1)
      fun plan₁ body₁ first hMoves hFirst => ?_) (wordPair_bind left right _ body)
    cases right with
    | none =>
      refine .pure hMoves.ready ⟨valued_none plan₁ body₁, rfl⟩ ?_
      rintro frame ⟨before, hBefore, -⟩
      match x, y, (hPre before hBefore).2 with
      | none, none, _ => trivial
      | some _, none, _ => trivial
    | some right =>
      obtain ⟨rightTy, hRight⟩ := hRight right rfl
      have hStill : ∀ frame, (∃ before, pre before ∧
          before.Keeps body.draft.function.registers.size frame ∧
          frame.Yields body₁.draft.function (some first) x) →
          frame.Yields body₁.draft.function (some right) y := by
        rintro frame ⟨before, hBefore, hKeeps, -⟩
        exact (hPre before hBefore).2.keeps hKeeps hMoves.flow.extends_.grows
      refine .step hMoves.ready (widen_simulates hMoves.ready (hRight.flow hMoves.flow) hStill) ?_
      intro plan₂ body₂ second hMoves' hSecond
      have hCombined : ∀ {pre : Frame → Prop} {u v : Word},
          (∀ frame, pre frame → frame.Denotes body₂.draft.function first u ∧
            frame.Denotes body₂.draft.function second v) →
          Simulates a context plan₂ body₂ pre (emit first second >>= fun value => Pure.pure (some value))
            (Pure.pure (some (combine u v)))
            (fun plan' body' value => Valued plan' body' value ∧ value.isSome = true)
            Yielding := by
        intro pre u v hDenotes
        refine .step hMoves'.ready (hEmit hMoves'.ready (hFirst.flow hMoves'.flow) hSecond hDenotes) ?_
        intro plan₃ body₃ value hMoves'' hValue
        refine .pure hMoves''.ready ⟨fun operand hOperand => ?_, rfl⟩ ?_
        · cases hOperand
          exact hValue
        · rintro frame ⟨before, -, -, hResult⟩
          exact hResult
      have hNever : ∀ frame : Frame, False → frame.Denotes body₂.draft.function first 0 ∧
          frame.Denotes body₂.draft.function second 0 := fun _ hFalse => hFalse.elim
      match x, y, hPre with
      | some u, some v, hPre =>
        refine hCombined ?_
        rintro frame ⟨before, ⟨start, -, -, hLeft⟩, hKeeps, hRight⟩
        exact ⟨Frame.Denotes.keeps hLeft hKeeps hMoves'.flow.extends_.grows, hRight⟩
      | none, y, hPre =>
        refine (hCombined hNever).vacuous ?_
        rintro frame ⟨before, ⟨start, hStart, -⟩, -⟩
        exact (hPre start hStart).1
      | some u, none, hPre =>
        refine (hCombined hNever).vacuous ?_
        rintro frame ⟨before, ⟨start, hStart, -⟩, -⟩
        exact (hPre start hStart).2

theorem readVariable_simulates (name : Name) :
    Simulates a context plan body pre (readVariable name)
      (get >>= fun store : Store => Pure.pure (some (store.env name.text))) (ValuedAs true)
      Yielding := by
  have hLeads := readVariable_leads h name
  cases hFound : body.scope.find? name.text with
  | none =>
    refine .reported hLeads ?_ _
    rw [readVariable_eq, hFound]
    exact diagnostics_report_ne_nil _ _ _
  | some slot =>
    have hEq : readVariable name body = (some <$> draft (Draft.load .i32 slot)) body := by
      rw [readVariable_eq, hFound]
    unfold Simulates
    unfold Leads at hLeads ⊢
    rw [hEq] at hLeads ⊢
    obtain ⟨plan', hMoves, hValued⟩ := hLeads
    refine ⟨⟨plan', hMoves, hValued, fun _ => rfl⟩, fun hStage frame store hStands _ => ?_⟩
    have hSlot : frame.slots.get? slot = some (store.env name.text) :=
      hStands.env _ _ (hStage.scope _ _ hFound)
    have hExecute : ∀ rest, execute a.module (frame.past rest)
        (.load body.draft.function.registers.nextId slot) =
        (frame.past rest).write body.draft.function.registers.nextId (.int (store.env name.text)) >>=
          fun next => Pure.pure (.resume next) := by
      intro rest
      have hPast : (frame.past rest).slots.get? slot = some (store.env name.text) := hSlot
      simp only [execute]
      rw [hPast]
      rfl
    obtain ⟨next, hStep, hNext, hKeeps, hReads⟩ := hStands.emit h.draft.block_lt rfl rfl
      (.int (store.env name.text)) rfl hStage hExecute
    exact .after hStep (Nat.le_add_left _ _) (.now ⟨next, rfl, hNext, hKeeps, _, hReads, rfl⟩)

theorem slotFor_simulates (name : String) :
    Simulates a context plan body pre (slotFor name) (Pure.pure ())
      (fun _ body' slot => body'.scope.find? name = some slot) (fun _ _ _ _ => True) := by
  refine ⟨slotFor_leads h name, fun _ frame store hStands _ => ?_⟩
  refine .now ⟨frame, rfl, ?_, .refl _ _, trivial⟩
  rw [slotFor_eq]
  cases body.scope.find? name with
  | some slot => exact hStands
  | none => exact hStands.congr rfl (Function.bodyAt_newSlot _ h.draft.size_pos _ _)

theorem store_simulates (ha : a.Fit) {name : String} {slot : SlotId} {value : Operand}
    (hSlot : body.scope.find? name = some slot) (hValue : Usable plan body.draft value .i32)
    {word : Word} (hPre : ∀ frame, pre frame → frame.Denotes body.draft.function value word) :
    Simulates a context plan body pre (draft (Draft.store slot value)) (assign name word)
      (fun plan' body' _ => Usable plan' body'.draft value .i32)
      (fun body' _ _ frame => frame.Denotes body'.draft.function value word) := by
  have hStays := store_stays h (h.scope name slot hSlot) rfl hValue
  refine ⟨⟨plan, hStays.toMoves, hValue.flow hStays.flow⟩, fun hStage frame store hStands hFrame => ?_⟩
  have hFinal : a.scope.find? name = some slot := hStage.scope name slot hSlot
  have hSize : slot.index < frame.slots.size := by
    rw [hStands.slots]
    exact ha.slots name slot hFinal
  have hBody : (body.draft.function.append body.draft.block (.store slot value)).bodyAt
      body.draft.block = body.draft.function.bodyAt body.draft.block ++ [.store slot value] :=
    bodyAt_append h.draft.block_lt rfl rfl
  have hRest := hStands.next hStage.grows hBody
  generalize hDrop : List.drop _ _ = rest at hRest
  have hExecute : execute a.module (frame.past rest) (.store slot value) =
      .ok (.resume ((frame.past rest).putSlot slot word)) := by
    have hWrite := (frame.past rest).writeSlot_eq hSize word
    simp only [execute]
    rw [(hPre frame hFrame).readWord]
    change (frame.past rest).writeSlot slot word >>= _ = _
    rw [hWrite]
    rfl
  have hKept : frame.Keeps body.draft.function.registers.size ((frame.past rest).putSlot slot word) :=
    ⟨rfl, fun _ _ _ hHolds => hHolds⟩
  refine .after (a.advance_resume store hRest hExecute) (Nat.le_add_left _ _)
    (.now ⟨_, rfl, ?_, hKept, (hPre frame hFrame).keeps hKept hStays.flow.extends_.grows⟩)
  refine ⟨hStands.function, hStands.block, hDrop.symm, hStands.registers,
    (Frame.size_putSlot _ _ _).trans hStands.slots, fun other found hFound => ?_⟩
  rw [Frame.get?_putSlot (frame.past rest) hSize]
  dsimp only
  by_cases hOther : other = name
  · rw [hOther, hFinal, Option.some.injEq] at hFound
    rw [if_pos hFound.symm, if_pos hOther]
  · have hNe : found ≠ slot := by
      rintro rfl
      exact hOther (ha.distinct other name found hFound hFinal)
    rw [if_neg hNe, if_neg hOther]
    exact hStands.env other found hFound

end Straight

section Calls

namespace Lowering.Callee

/-- The operands that a call passes, with their number where the callee asks for it. -/
def passed (callee : Callee) (arguments : List Operand) : List Operand :=
  if callee.signature.variadic then withCount callee.signature.visibleArity arguments else arguments

def Accepts (callee : Callee) (given : Nat) : Prop :=
  if callee.signature.variadic then callee.signature.visibleArity ≤ given
  else given = callee.signature.visibleArity

instance (callee : Callee) (given : Nat) : Decidable (callee.Accepts given) := by
  unfold Accepts
  infer_instance

end Lowering.Callee

/-- A call of a function follows what its name invokes, and the frame then gets the result. -/
def Activation.Answers (a : Activation) (invoke : String → List Word → Eval (Option Word))
    (name : String) (callee : Callee) : Prop :=
  ∀ frame store arguments words destination rest,
    frame.rest = .call callee.id (callee.passed arguments) destination :: rest →
    callee.Accepts arguments.length →
    arguments.Forall₂ (fun operand word => (frame.past rest).readWord operand = .ok word) words →
    (destination.isSome = true ↔ callee.signature.result ≠ .void) →
    Follows a.module a.limit a.fuel (a.running frame store)
      (fun result after p => after.env = store.env ∧ result.isSome = destination.isSome ∧
        p = proceed a.callers { written := after.written }
          ((frame.past rest).receive destination (result.map Value.int)))
      (invoke name words store)

theorem emitCall_eq (name : Name) (callee : Callee) (arguments : List Operand) (body : Body) :
    emitCall name callee arguments body =
      if callee.Accepts arguments.length then
        draft (Draft.call callee.id callee.signature.result (callee.passed arguments)) body
      else (none, (report (.argumentCountMismatch name.text callee.signature.variadic
        callee.signature.visibleArity arguments.length) name.span body).2) := by
  unfold emitCall Callee.Accepts Callee.passed
  by_cases hVariadic : callee.signature.variadic = true
  · simp only [hVariadic, if_true]
    split <;> rfl
  · simp only [hVariadic, Bool.false_eq_true, if_false]
    split <;> rfl

variable {a : Activation} {context : Context} {plan : Plan} {body : Body} {pre : Frame → Prop}

theorem call_simulates (h : body.Ready context plan) {invoke : String → List Word → Eval (Option Word)}
    {name : String} {callee : Callee} (hAnswers : a.Answers invoke name callee)
    (hWord : callee.signature.result ≠ .void → callee.signature.result = .i32)
    {arguments : List Operand} (hAccepts : callee.Accepts arguments.length)
    (hLeads : Leads context plan body
      (draft (Draft.call callee.id callee.signature.result (callee.passed arguments))) Valued)
    {words : List Word}
    (hPre : ∀ frame, pre frame → List.Forall₂ (frame.Denotes body.draft.function) arguments words) :
    Simulates a context plan body pre
      (draft (Draft.call callee.id callee.signature.result (callee.passed arguments)))
      (invoke name words) (ValuedAs (decide (callee.signature.result ≠ .void)))
      Yielding := by
  unfold Simulates
  unfold Leads Draft.call at hLeads ⊢
  obtain ⟨plan', hMoves, hValued⟩ := hLeads
  have hReads : ∀ frame rest, pre frame → List.Forall₂ (fun operand word =>
      (frame.past rest).readWord operand = .ok word) arguments words := by
    intro frame rest hFrame
    exact (hPre frame hFrame).imp fun operand word hDenotes => hDenotes.readWord rest
  by_cases hVoid : callee.signature.result = .void
  · rw [if_pos hVoid] at hMoves hValued ⊢
    refine ⟨⟨plan', hMoves, hValued, fun _ => by simp [hVoid]; rfl⟩, ?_⟩
    intro hStage frame store hStands hFrame
    have hBody : (body.draft.function.append body.draft.block
        (.call callee.id (callee.passed arguments) none)).bodyAt body.draft.block =
        body.draft.function.bodyAt body.draft.block ++ [.call callee.id (callee.passed arguments) none] :=
      bodyAt_append h.draft.block_lt rfl rfl
    have hRest := hStands.next hStage.grows hBody
    generalize hDrop : List.drop _ _ = rest at hRest
    refine (hAnswers frame store arguments words none rest hRest hAccepts (hReads frame rest hFrame)
      (by simp [hVoid])).mono ?_
    rintro result after p ⟨hEnv, hResult, rfl⟩
    have hNone : result = none := Option.not_isSome_iff_eq_none.mp (by simp [hResult])
    refine ⟨frame.past rest, by rw [hNone]; rfl, ?_, ⟨rfl, fun _ _ _ hHolds => hHolds⟩, by rw [hNone]; trivial⟩
    refine ⟨hStands.function, hStands.block, hDrop.symm, hStands.registers, hStands.slots, ?_⟩
    rw [hEnv]
    exact hStands.env
  · rw [if_neg hVoid] at hMoves hValued ⊢
    refine ⟨⟨plan', hMoves, hValued, fun _ => by simp [hVoid]; rfl⟩, ?_⟩
    intro hStage frame store hStands hFrame
    obtain ⟨rest, hRest, hPut⟩ := hStands.put h.draft.block_lt rfl rfl hStage
    refine (hAnswers frame store arguments words _ rest hRest hAccepts (hReads frame rest hFrame)
      (by simp [hVoid])).mono ?_
    rintro result after p ⟨hEnv, hResult, rfl⟩
    obtain ⟨word, rfl⟩ := Option.isSome_iff_exists.mp hResult
    obtain ⟨next, hWrite, hNext, hKeeps, hReads⟩ := hPut (.int word) after (hWord hVoid).symm hEnv
    refine ⟨next, ?_, hNext, hKeeps, .int word, hReads, rfl⟩
    change proceed _ _ ((frame.past rest).write _ (.int word)) = _
    rw [hWrite]
    rfl

theorem emitCall_simulates (h : body.Ready context plan)
    {invoke : String → List Word → Eval (Option Word)} (name : Name) {callee : Callee}
    (hAnswers : a.Answers invoke name.text callee)
    (hResult : callee.signature.result = if name.text = "puts" then .void else .i32)
    (hCallee : context.signature? callee.id = some callee.signature) {arguments : List Operand}
    (hWidth : arguments.length ≤ context.width)
    (hArguments : ∀ value ∈ arguments, Usable plan body.draft value .i32) {words : List Word}
    (hPre : ∀ frame, pre frame → List.Forall₂ (frame.Denotes body.draft.function) arguments words) :
    Simulates a context plan body pre (emitCall name callee arguments) (invoke name.text words)
      (ValuedAs (decide (name.text ≠ "puts")))
      Yielding := by
  have hLeads := emitCall_leads h name hCallee hWidth hArguments
  have hVoid : (name.text ≠ "puts") = (callee.signature.result ≠ .void) := by
    rw [hResult]
    split <;> simp [*]
  have hWord : callee.signature.result ≠ .void → callee.signature.result = .i32 := by
    intro hNotVoid
    rw [hResult, if_neg (hVoid.mpr hNotVoid)]
  by_cases hAccepts : callee.Accepts arguments.length
  · have hEq := (emitCall_eq name callee arguments body).trans (if_pos hAccepts)
    unfold Leads at hLeads
    rw [hEq] at hLeads
    simp only [hVoid]
    exact (call_simulates h hAnswers hWord hAccepts hLeads hPre).congr hEq
  · have hEq := (emitCall_eq name callee arguments body).trans (if_neg hAccepts)
    refine .reported hLeads ?_ _
    rw [hEq]
    exact diagnostics_report_ne_nil _ _ _

end Calls
end Slate
