import Slate.Proofs.Simulation.Actions

/-! # Conditionals and loops as they run

A run of a conditional takes one of two branches, goes through that arm and on to the block where the arms
meet, which picks the value by the block the run came from. A run of a loop comes back to the test for
each round.
-/

namespace Slate
set_option autoImplicit false

open Lowering Evaluation Machine Activation
open Draft (Usable)
open Body (Moves Stays)

namespace Activation

variable {a : Activation} {body body' : Body} {store : Store} {frame : Frame}

theorem Stage.goTo_iff (block : BlockId) : a.Stage (body.goTo block) ↔ a.Stage body :=
  ⟨fun h => ⟨h.grows, h.scope, h.clean⟩, fun h => ⟨h.grows, h.scope, h.clean⟩⟩

/-- Control goes from the current block to the start of another one. -/
theorem Stands.leave (ha : a.Fit) (h : a.Stands body store frame) {terminator : Instruction}
    (hCode : body.draft.function.bodyAt body.draft.block ++ [terminator] <+:
      a.function.bodyAt body.draft.block) (target : BlockId)
    (hExecute : ∀ rest, execute a.module (frame.past rest) terminator =
      (frame.past rest).goto target >>= fun next => pure (.resume next))
    (hKnown : target.index < a.function.blocks.size) (hEntry : target ≠ ⟨0⟩) :
    ∃ next, advance standardHost a.module a.limit 1 (a.running frame store) = a.running next store ∧
      next.previous = some body.draft.block ∧ (∀ n, frame.Keeps n next) ∧
      ∀ body', body'.draft.block = target → body'.draft.function.bodyAt target = [] →
        a.Stands body' store next := by
  obtain ⟨tail, hTail⟩ := hCode
  obtain ⟨block, hBlock⟩ := Table.exists_of_lt hKnown
  have hRest : frame.rest = terminator :: tail := by
    rw [h.rest, ← hTail]
    simp
  have hPast : (frame.past tail).function.blocks.get? target = some block := by
    rw [← hBlock, ← h.function]
    rfl
  have hStart : block.code = a.function.bodyAt target := by
    have hIndex : target.index ≠ 0 := fun hZero => hEntry ((Id.eq_iff _ _).mpr hZero)
    have hFramed := ha.framed.code target
    rw [Function.prologueAt, if_neg hIndex, List.nil_append, Function.codeAt, hBlock] at hFramed
    exact hFramed
  refine ⟨(frame.past tail).startOf target block.code, a.advance_resume store hRest ?_, ?_,
    fun n => ⟨rfl, fun _ _ _ hHolds => hHolds⟩, fun body' hTarget hEmpty => ?_⟩
  · rw [hExecute, (frame.past tail).goto_eq hPast]
    rfl
  · exact congrArg some h.block
  · refine ⟨h.function, hTarget.symm, ?_, h.registers, h.slots, h.env⟩
    rw [hTarget, hEmpty]
    exact hStart

/-- A run goes on to where a body stands, with nothing assigned or written. -/
def Arrives (a : Activation) (store : Store) (frame : Frame) (n : Nat) (body : Body)
    (post : Frame → Prop) : Prop :=
  ∃ steps next, advance standardHost a.module a.limit steps (a.running frame store) =
    a.running next store ∧ a.Stands body store next ∧ frame.Keeps n next ∧ post next

theorem Arrives.now (h : a.Stands body store frame) (n : Nat) {post : Frame → Prop} (hPost : post frame) :
    a.Arrives store frame n body post :=
  ⟨0, frame, advance_zero _ _ _ _, h, .refl _ _, hPost⟩

theorem Arrives.mono {m n : Nat} {post post' : Frame → Prop} (h : a.Arrives store frame n body post)
    (hLe : m ≤ n) (hBlock : body'.draft.block = body.draft.block)
    (hBody : body'.draft.function.bodyAt body.draft.block =
      body.draft.function.bodyAt body.draft.block)
    (hPost : ∀ next, post next → post' next) : a.Arrives store frame m body' post' := by
  obtain ⟨steps, next, hSteps, hNext, hKeeps, hHolds⟩ := h
  exact ⟨steps, next, hSteps, hNext.congr hBlock hBody, hKeeps.mono hLe, hPost next hHolds⟩

theorem Arrives.bind {m n : Nat} {post post' : Frame → Prop} (h : a.Arrives store frame m body post)
    (hNext : ∀ next, a.Stands body store next → post next → a.Arrives store next n body' post')
    (hLe : m ≤ n) : a.Arrives store frame m body' post' := by
  obtain ⟨steps, middle, hSteps, hMiddle, hKeeps, hPost⟩ := h
  obtain ⟨steps', next, hSteps', hNext, hKeeps', hPost'⟩ := hNext middle hMiddle hPost
  refine ⟨steps + steps', next, ?_, hNext, hKeeps.trans hKeeps' hLe, hPost'⟩
  rw [advance_add, hSteps, hSteps']

theorem Arrives.follows {α : Type} {k n : Nat} {post : Frame → Prop} (h : a.Arrives store frame n body post)
    {value : α} {post' : α → Store → Progress Sink → Prop}
    (hPost : ∀ next, a.Stands body store next → frame.Keeps n next → post next →
      post' value store (a.running next store)) :
    Follows a.module a.limit k (a.running frame store) post' (.ok value, store) := by
  obtain ⟨steps, next, hSteps, hNext, hKeeps, hHolds⟩ := h
  exact .after hSteps (Nat.le_add_left _ _) (.now (hPost next hNext hKeeps hHolds))

/-- What a silent action of lowering leads to. -/
theorem Arrives.of_simulates {α : Type} {context : Context} {plan : Plan} {pre : Frame → Prop}
    {action : Lower α} {lead : Plan → Body → α → Prop} {post : Body → α → Unit → Frame → Prop}
    (h : Simulates a context plan body pre action (pure ()) lead post) (hStage : a.Stage (action body).2)
    (hStands : a.Stands body store frame) (hPre : pre frame) :
    a.Arrives store frame body.draft.function.registers.size (action body).2
      (post (action body).2 (action body).1 ()) := by
  obtain ⟨steps, next, hSteps, hNext⟩ := h.2 hStage frame store hStands hPre
  exact ⟨steps, next, hSteps, hNext⟩

end Activation

section Merge

variable {a : Activation} {context : Context} {plan : Plan} {body : Body} {store : Store} {frame : Frame}
  (h : body.Ready context plan) {x y : BlockId} (hx : x ∈ plan.frontier) (hy : y ∈ plan.frontier)
  (hxy : x ≠ y)
include h hx hy hxy

/-- A run that comes from one of two blocks with a value brings it along when the values of both are made
equally wide. -/
theorem unify_arrives {first second : Operand} {firstTy secondTy : Ty}
    (hFirst : Usable plan (body.goTo x).draft first firstTy)
    (hSecond : Usable plan (body.goTo y).draft second secondTy)
    (hStage : a.Stage (unify x y first second body).2) {word : Word} :
    (a.Stands (body.goTo x) store frame → frame.Denotes body.draft.function first word →
      a.Arrives store frame body.draft.function.registers.size
        ((unify x y first second body).2.goTo x) fun next =>
          next.Denotes (unify x y first second body).2.draft.function
            (unify x y first second body).1.1 word) ∧
    (a.Stands (body.goTo y) store frame → frame.Denotes body.draft.function second word →
      a.Arrives store frame body.draft.function.registers.size
        ((unify x y first second body).2.goTo y) fun next =>
          next.Denotes (unify x y first second body).2.draft.function
            (unify x y first second body).1.2 word) := by
  rw [unify_eq] at hStage ⊢
  split
  · exact ⟨fun hStands hWord => .now hStands _ hWord, fun hStands hWord => .now hStands _ hWord⟩
  · rename_i hTypes
    rw [if_neg hTypes] at hStage
    obtain ⟨hStays, hFirst'⟩ := toWord_stays (h.goTo hx) hFirst
    have hSecond' : Usable plan ((toWord first (body.goTo x)).2.goTo y).draft second secondTy :=
      hSecond.extends_ (h.draft.staged.known y hy) hStays.flow.extends_
    have hStays' := (toWord_stays (hStays.ready.goTo hy) hSecond').1
    have hStage₁ := (Stage.goTo_iff y).mp (hStage.back hStays'.toMoves)
    constructor
    · intro hStands hWord
      have hKnown : x.index < (toWord first (body.goTo x)).2.draft.function.blocks.size :=
        Nat.lt_of_lt_of_le (h.draft.staged.known x hx) hStays.flow.extends_.grows.blocks
      refine (Arrives.of_simulates (toWord_simulates (h.goTo hx) hFirst fun _ hDenotes => hDenotes)
        hStage₁ hStands hWord).mono (Nat.le_refl _) hStays.block_eq.symm ?_ fun next hDenotes =>
          hDenotes.keeps (.refl _ _) hStays'.flow.extends_.grows
      rw [hStays.block_eq]
      exact hStays'.flow.extends_.kept x hKnown hxy
    · intro hStands hWord
      have hStands' : a.Stands ((toWord first (body.goTo x)).2.goTo y) store frame :=
        hStands.congr rfl (hStays.flow.extends_.kept y (h.draft.staged.known y hy) hxy.symm)
      exact (Arrives.of_simulates (toWord_simulates (hStays.ready.goTo hy) hSecond'
        fun _ hDenotes => hDenotes) hStage hStands' (hWord.keeps (.refl _ _) hStays.flow.extends_.grows)).mono
          hStays.flow.extends_.grows.registers.size_le hStays'.block_eq.symm rfl fun _ hDenotes => hDenotes

theorem incoming_arrives {first second : Option Operand} (hFirst : Valued plan (body.goTo x) first)
    (hSecond : Valued plan (body.goTo y) second)
    (hStage : a.Stage (incoming x y first second body).2) {z : BlockId} {value : Option Operand}
    {side : Operand × Operand → Operand}
    (hSide : (z = x ∧ value = first ∧ side = Prod.fst) ∨ (z = y ∧ value = second ∧ side = Prod.snd))
    (hStands : a.Stands (body.goTo z) store frame) {result : Option Word}
    (hYields : frame.Yields body.draft.function value result) :
    a.Arrives store frame body.draft.function.registers.size
      ((incoming x y first second body).2.goTo z) fun next =>
        next.Yields (incoming x y first second body).2.draft.function
          ((incoming x y first second body).1.map side)
          (if first.isSome && second.isSome then result else none) := by
  cases first with
  | none => exact .now hStands _ trivial
  | some first =>
    cases second with
    | none => exact .now hStands _ trivial
    | some second =>
      obtain ⟨firstTy, hFirst⟩ := hFirst first rfl
      obtain ⟨secondTy, hSecond⟩ := hSecond second rfl
      rcases hSide with ⟨rfl, rfl, rfl⟩ | ⟨rfl, rfl, rfl⟩
      · cases result with
        | none => exact hYields.elim
        | some word => exact (unify_arrives h hx hy hxy hFirst hSecond hStage).1 hStands hYields
      · cases result with
        | none => exact hYields.elim
        | some word => exact (unify_arrives h hx hy hxy hFirst hSecond hStage).2 hStands hYields

end Merge

/-- A run from one of two blocks goes to where they meet and has the value it came with there. -/
theorem conclude_arrives {a : Activation} (ha : a.Fit) {body : Body} {x y j z : BlockId}
    {values : Option (Operand × Operand)} {side : Operand × Operand → Operand}
    (hx : x.index < body.draft.function.blocks.size) (hy : y.index < body.draft.function.blocks.size)
    (hj : j.index < body.draft.function.blocks.size) (hxy : x ≠ y) (hEntry : j ≠ ⟨0⟩)
    (hSide : (z = x ∧ side = Prod.fst) ∨ (z = y ∧ side = Prod.snd))
    (hEmpty : (body.join x y j).draft.function.bodyAt j = [])
    (hGrows : body.draft.function.Grows (body.join x y j).draft.function)
    (hTypes : ∀ pair, values = some pair → ∃ ty, body.draft.function.operandType? pair.1 = some ty ∧
      body.draft.function.operandType? pair.2 = some ty)
    (hStage : a.Stage (conclude x y values (body.join x y j)).2) {store : Store} {frame : Frame}
    (hStands : a.Stands (body.goTo z) store frame) {result : Option Word}
    (hYields : frame.Yields body.draft.function (values.map side) result) :
    a.Arrives store frame body.draft.function.registers.size (conclude x y values (body.join x y j)).2
      fun next => next.Yields (conclude x y values (body.join x y j)).2.draft.function
        (conclude x y values (body.join x y j)).1 result := by
  have hJump : (body.join x y j).draft.function.bodyAt z =
      body.draft.function.bodyAt z ++ [.jump j] :=
    Body.bodyAt_join hx hy hxy j (hSide.imp And.left And.left)
  have hLeave : (body.join x y j).draft.function.Grows a.function →
      ∃ next, advance standardHost a.module a.limit 1 (a.running frame store) = a.running next store ∧
        next.previous = some z ∧ (∀ n, frame.Keeps n next) ∧ a.Stands (body.join x y j) store next := by
    intro hFinal
    have hCode : body.draft.function.bodyAt z ++ [.jump j] <+: a.function.bodyAt z := by
      rw [← hJump]
      exact hFinal.body z
    obtain ⟨next, hStep, hPrevious, hKeeps, hNext⟩ := hStands.leave ha hCode j (fun _ => rfl)
      (Nat.lt_of_lt_of_le hj (hGrows.trans hFinal).blocks) hEntry
    exact ⟨next, hStep, hPrevious, hKeeps, hNext _ rfl hEmpty⟩
  cases values with
  | none =>
    obtain ⟨next, hStep, -, hKeeps, hNext⟩ := hLeave hStage.grows
    cases result with
    | none => exact ⟨1, next, hStep, hNext, hKeeps _, trivial⟩
    | some word => exact hYields.elim
  | some values =>
    obtain ⟨ty, hFirst, hSecond⟩ := hTypes values rfl
    have hEq := conclude_some x y values (body.join x y j) (hGrows.operandType? hFirst)
    rw [Function.add_eq_append _ _ rfl] at hEq
    have hJoin : j.index < (body.join x y j).draft.function.blocks.size :=
      Nat.lt_of_lt_of_le hj hGrows.blocks
    rw [hEq] at hStage ⊢
    have hPhi : (body.join x y j).draft.function.Grows
        (((body.join x y j).draft.function.newRegister ty).append j (.phi
          (body.join x y j).draft.function.registers.nextId (.ofList [(x, values.1), (y, values.2)]))) := by
      have hJoin' : j.index < ((body.join x y j).draft.function.newRegister ty).blocks.size := hJoin
      rw [← Function.add_eq_append _ _ rfl]
      exact (Function.widens_newRegister _ ty).grows.trans (Function.grows_add hJoin' rfl)
    obtain ⟨next, hStep, hPrevious, hKeeps, hNext⟩ := hLeave (hPhi.trans hStage.grows)
    cases result with
    | none => exact hYields.elim
    | some word =>
      obtain ⟨value, hReads, rfl⟩ := hYields
      have hRead := hReads.keeps (hKeeps _) (.refl _)
      have hTy : value.ty = ty := by
        rcases hSide with ⟨-, rfl⟩ | ⟨-, rfl⟩
        · exact Option.some.inj (hReads.2.symm.trans hFirst)
        · exact Option.some.inj (hReads.2.symm.trans hSecond)
      have hSource : (IdMap.ofList [(x, values.1), (y, values.2)]).get? z = some (side values) := by
        have hGet : ∀ key, (IdMap.ofList [(x, values.1), (y, values.2)]).get? key =
            if key = y then some values.2 else if key = x then some values.1 else none := by
          intro key
          change ((IdMap.empty.insert x values.1).insert y values.2).get? key = _
          rw [IdMap.get?_insert, IdMap.get?_insert]
          rfl
        rw [hGet]
        rcases hSide with ⟨rfl, rfl⟩ | ⟨rfl, rfl⟩
        · rw [if_neg hxy, if_pos rfl]
        · rw [if_pos rfl]
      obtain ⟨last, hStep', hLast, hKeeps', hReads'⟩ := hNext.emit hJoin rfl rfl value hTy hStage (by
        intro rest
        have hFrom : (next.past rest).previous = some z := hPrevious
        simp only [execute]
        rw [hFrom, Option.bind_some, hSource]
        dsimp only
        rw [next.read_past rest, hRead.1]
        rfl)
      refine ⟨1 + 1, last, ?_, hLast, (hKeeps _).trans hKeeps' hGrows.registers.size_le, value, hReads', rfl⟩
      rw [advance_add, hStep, hStep']

theorem Activation.Stage.of_conclude {a : Activation} {body : Body} {x y : BlockId}
    {values : Option (Operand × Operand)} (hHere : body.draft.block.index < body.draft.function.blocks.size)
    (h : a.Stage (conclude x y values body).2) : a.Stage body := by
  cases values with
  | none => exact h
  | some values =>
    have hHere' : ∀ ty, body.draft.block.index < (body.draft.function.newRegister ty).blocks.size :=
      fun _ => hHere
    refine ⟨Function.Grows.trans ?_ h.grows, h.scope, h.clean⟩
    change body.draft.function.Grows ((body.draft.function.newRegister _).append body.draft.block _)
    rw [← Function.add_eq_append _ _ rfl]
    exact (Function.widens_newRegister _ _).grows.trans (Function.grows_add (hHere' _) rfl)

section Merge

variable {a : Activation} (ha : a.Fit) {context : Context} {plan : Plan} {body : Body}
  (h : body.Ready context plan) {x y : BlockId} (hx : x ∈ plan.frontier) (hy : y ∈ plan.frontier)
  (hxy : x ≠ y) {written : RegisterId → Prop}
  (hWritten : ∀ register, written register →
    body.draft.function.Leaving plan.entering x register ∧
      body.draft.function.Leaving plan.entering y register)
include ha h hx hy hxy hWritten

/-- A run from one of two arms goes on to where they meet, with the value of that arm if both have one. -/
theorem merge_arrives {first second : Option Operand} (hFirst : Valued plan (body.goTo x) first)
    (hSecond : Valued plan (body.goTo y) second) (hStage : a.Stage (merge x y first second body).2)
    {store : Store} {frame : Frame} {result : Option Word} {z : BlockId} {value : Option Operand}
    {side : Operand × Operand → Operand}
    (hSide : (z = x ∧ value = first ∧ side = Prod.fst) ∨ (z = y ∧ value = second ∧ side = Prod.snd))
    (hStands : a.Stands (body.goTo z) store frame)
    (hYields : frame.Yields body.draft.function value result) :
    a.Arrives store frame body.draft.function.registers.size (merge x y first second body).2 fun next =>
      next.Yields (merge x y first second body).2.draft.function (merge x y first second body).1
        (if first.isSome && second.isSome then result else none) := by
  rw [merge_eq] at hStage ⊢
  obtain ⟨f, hGathered, hScope, hDiagnostics, hSize, hf, hf', hValues⟩ :=
    merge_incoming h hx hy hFirst hSecond written
  obtain ⟨plan', hMerges, -, hGrows, hEmpty, -⟩ := join_merges h hx hy hxy hWritten rfl rfl hGathered hScope
    hDiagnostics hSize hf hf'
  have hJoined := Stage.of_conclude hMerges.ready.draft.block_lt hStage
  have hStage' : a.Stage (incoming x y first second
      (body.withFunction (body.draft.function.newBlock "ifcont"))).2 := by
    refine ⟨hGrows.trans hJoined.grows, fun name slot hSlot => hJoined.scope name slot ?_, ?_⟩
    · rw [Body.scope_join]
      exact hSlot
    · have hClean := hJoined.clean
      rw [Body.diagnostics_join] at hClean
      exact hClean
  have hStart : a.Stands ((body.withFunction (body.draft.function.newBlock "ifcont")).goTo z) store frame :=
    hStands.congr rfl (Function.bodyAt_newBlock _ _ _)
  have hValue := hYields.keeps (.refl _ _) (Function.widens_newBlock _ "ifcont").grows
  refine (incoming_arrives (h.newBlock "ifcont" written) (.inr hx) (.inr hy) hxy
    (hFirst.newBlock h hx _ _) (hSecond.newBlock h hy _ _) hStage' hSide hStart hValue).bind ?_
    (hf.grows.trans hf'.grows).registers.size_le
  intro next hNext hYields'
  have hKnown := fun id hId => hGathered.draft.staged.known id hId
  refine conclude_arrives ha (hKnown x (.inr hx)) (hKnown y (.inr hy)) (hKnown _ (.inl rfl)) hxy
    h.next_ne_zero (hSide.imp (fun hx => ⟨hx.1, hx.2.2⟩) fun hy => ⟨hy.1, hy.2.2⟩) hEmpty hGrows ?_ hStage
    hNext hYields'
  intro pair hPair
  obtain ⟨ty, hLeft, hRight⟩ := hValues pair hPair
  exact ⟨ty, hLeft.typed, hRight.typed⟩

end Merge

theorem isSome_merge (x y : BlockId) (first second : Option Operand) (body : Body) :
    (merge x y first second body).1.isSome = (first.isSome && second.isSome) := by
  rw [merge_eq]
  cases first with
  | none => rfl
  | some first => cases second <;> rfl

theorem Activation.Stage.of_merges {a : Activation} {context : Context} {plan plan' : Plan}
    {body body' : Body} {x y : BlockId} {written : RegisterId → Prop}
    (hMerges : Body.Merges context plan body x y written plan' body') (h : a.Stage body') :
    a.Stage body where
  grows := hMerges.larger.trans h.grows
  scope name slot hSlot := h.scope name slot (by rwa [hMerges.scope])
  clean := hMerges.diagnostics.symm.trans h.clean

section Control

variable {a : Activation} (ha : a.Fit) {context : Context} {plan : Plan} {body : Body}
  {pre : Frame → Prop} (h : body.Ready context plan)
include ha h

theorem fork_stands {test : Operand} {b : Bool} (hStage : a.Stage (body.fork test)) {store : Store}
    {frame : Frame} (hStands : a.Stands body store frame)
    (hTest : frame.Reads body.draft.function test (.bool b)) :
    let target := if b then body.next else (body.newBlock "then").next
    ∃ next, advance standardHost a.module a.limit 1 (a.running frame store) = a.running next store ∧
      (∀ n, frame.Keeps n next) ∧
      ∀ body', body'.draft.block = target → body'.draft.function.bodyAt target = [] →
        a.Stands body' store next := by
  intro target
  have hSize : (body.fork test).draft.function.blocks.size = body.draft.function.blocks.size + 1 + 1 := by
    rw [Body.fork, Body.draft_leave, Function.size_add, Body.size_newBlock, Body.size_newBlock]
  have hHere : body.draft.block.index <
      ((body.newBlock "then").newBlock "else").draft.function.blocks.size := by
    rw [Body.size_newBlock, Body.size_newBlock]
    exact Nat.lt_succ_of_lt (Nat.lt_succ_of_lt h.draft.block_lt)
  have hCode : body.draft.function.bodyAt body.draft.block ++
      [.branch test body.next (body.newBlock "then").next] <+:
      a.function.bodyAt body.draft.block := by
    have hFork := hStage.grows.body body.draft.block
    rw [Body.fork, Body.bodyAt_leave _ hHere rfl, Body.block_newBlock, Body.block_newBlock, if_pos rfl,
      Body.bodyAt_newBlock, Body.bodyAt_newBlock] at hFork
    exact hFork
  have hIndex : target.index < body.draft.function.blocks.size + 1 + 1 ∧
      body.draft.function.blocks.size ≤ target.index := by
    have hThen := Body.size_newBlock body "then"
    cases b with
    | true => exact ⟨Nat.lt_succ_of_lt (Nat.lt_succ_self _), Nat.le_refl _⟩
    | false =>
      change (body.newBlock "then").draft.function.blocks.size < _ ∧
        _ ≤ (body.newBlock "then").draft.function.blocks.size
      omega
  have hKnown : target.index < a.function.blocks.size := by
    have hBlocks := hStage.grows.blocks
    omega
  have hEntry : target ≠ ⟨0⟩ := by
    have hPos := h.draft.size_pos
    intro hZero
    have hZero' : target.index = 0 := congrArg Id.index hZero
    omega
  obtain ⟨next, hStep, -, hNext⟩ := hStands.leave ha hCode target (by
    intro rest
    simp only [execute]
    rw [frame.read_past rest, hTest.1]
    rfl) hKnown hEntry
  exact ⟨next, hStep, hNext⟩

theorem conditional_simulates {positive negative : Lower (Option Operand)}
    {first second : Eval (Option Word)} {p q : Bool}
    (hPositive : ∀ plan body, body.Ready context plan →
      Simulates a context plan body (fun _ => True) positive first (ValuedAs p) Yielding)
    (hNegative : ∀ plan body, body.Ready context plan →
      Simulates a context plan body (fun _ => True) negative second (ValuedAs q) Yielding)
    {test : Operand} (hTest : Usable plan body.draft test .i1) {word : Word}
    (hPre : ∀ frame, pre frame →
      frame.Reads body.draft.function test (.bool (decide (word ≠ 0)))) :
    Simulates a context plan body pre (conditional positive negative test)
      ((if word ≠ 0 then first else second) >>= fun result =>
        pure (if p && q then result else none)) (ValuedAs (p && q)) Yielding := by
  obtain ⟨plan₁, hOpens⟩ := fork_opens h hTest
  have hApart : (body.newBlock "then").next ≠ body.next :=
    (Body.next_ne (Nat.lt_of_lt_of_eq (Nat.lt_succ_self _) (Body.size_newBlock body _).symm)).symm
  obtain ⟨⟨plan₂, hOne, hOneValue, hOneSome⟩, hOneRuns⟩ := hPositive plan₁ _ hOpens.ready
  obtain ⟨⟨plan₃, hTwo, hTwoValue, hTwoSome⟩, hTwoRuns⟩ :=
    hNegative plan₂ _ (hOne.ready.goTo (hOpens.mem_frontier hOne (.inl rfl) hApart))
  have hSplits := hOpens.splits rfl hApart h hOne hTwo
  have hCarried : Valued plan₃ ((negative ((positive (body.fork test)).2.goTo
      (body.newBlock "then").next)).2.goTo (positive (body.fork test)).2.draft.block)
      (positive (body.fork test)).1 := by
    intro operand hOperand
    obtain ⟨ty, hUsable⟩ := hOneValue operand hOperand
    exact ⟨ty, hUsable.extends_ hOne.ready.draft.block_lt hTwo.flow.extends_⟩
  obtain ⟨plan₄, hMerges, hValue⟩ := merge_spec hSplits.ready hSplits.here hSplits.ready.draft.here
    hSplits.apart hSplits.carries hCarried hTwoValue
  refine ⟨⟨plan₄, hSplits.moves hMerges h, hValue, fun hClean => ?_⟩, ?_⟩
  · have hTwoClean := hMerges.diagnostics.symm.trans hClean
    have hOneClean := hTwo.diagnostics
    rw [hTwoClean] at hOneClean
    rw [← hOneSome (List.prefix_nil.mp hOneClean), ← hTwoSome hTwoClean]
    exact isSome_merge _ _ _ _ _
  · intro hStage frame store hStands hFrame
    have hStageTwo := Stage.of_merges hMerges hStage
    have hStageOne := (Stage.goTo_iff _).mp (hStageTwo.back hTwo)
    have hStageFork := hStageOne.back hOne
    rw [← hOneSome hStageOne.clean, ← hTwoSome hStageTwo.clean]
    have hRead := hPre frame hFrame
    have hGrows := hOpens.extends_.grows.registers.size_le
    have hGrowsOne := hOne.flow.extends_.grows.registers.size_le
    have hGrowsTwo := hTwo.flow.extends_.grows.registers.size_le
    by_cases hWord : word ≠ 0
    · rw [decide_eq_true hWord] at hRead
      obtain ⟨next, hStep, hKept, hNext⟩ := fork_stands ha h hStageFork hStands hRead
      rw [if_pos hWord]
      refine .after hStep (Nat.le_add_left _ _)
        ((hOneRuns hStageOne next store (hNext _ rfl (hOpens.empty _ (.inr rfl))) trivial).bind ?_)
      rintro result after q ⟨middle, rfl, hMiddle, hKeeps, hYields⟩
      have hMiddle' : a.Stands ((negative ((positive (body.fork test)).2.goTo
          (body.newBlock "then").next)).2.goTo (positive (body.fork test)).2.draft.block) after middle :=
        hMiddle.congr rfl
          (hTwo.flow.extends_.kept _ hOne.ready.draft.block_lt (hOpens.exit_ne hOne (.inl rfl) hApart))
      refine (merge_arrives ha hSplits.ready hSplits.here hSplits.ready.draft.here hSplits.apart
        hSplits.carries hCarried hTwoValue hStage (.inl ⟨rfl, rfl, rfl⟩) hMiddle'
        (hYields.keeps (.refl _ _) hTwo.flow.extends_.grows)).follows ?_
      intro last hLast hKeeps' hYields'
      exact ⟨last, rfl, hLast, ((hKept _).trans (hKeeps.mono hGrows) (Nat.le_refl _)).trans
        (hKeeps'.mono (hGrows.trans (hGrowsOne.trans hGrowsTwo))) (Nat.le_refl _), hYields'⟩
    · rw [decide_eq_false hWord] at hRead
      obtain ⟨next, hStep, hKept, hNext⟩ := fork_stands ha h hStageFork hStands hRead
      rw [if_neg hWord]
      have hEmpty := hOpens.bodyAt_eq_nil hOne (.inl rfl) hApart
      refine .after hStep (Nat.le_add_left _ _)
        ((hTwoRuns hStageTwo next store (hNext _ rfl hEmpty) trivial).bind ?_)
      rintro result after q ⟨middle, rfl, hMiddle, hKeeps, hYields⟩
      refine (merge_arrives ha hSplits.ready hSplits.here hSplits.ready.draft.here hSplits.apart
        hSplits.carries hCarried hTwoValue hStage (.inr ⟨rfl, rfl, rfl⟩) (hMiddle.congr rfl rfl)
        hYields).follows ?_
      intro last hLast hKeeps' hYields'
      exact ⟨last, rfl, hLast, ((hKept _).trans (hKeeps.mono (hGrows.trans hGrowsOne))
        (Nat.le_refl _)).trans (hKeeps'.mono (hGrows.trans (hGrowsOne.trans hGrowsTwo)))
        (Nat.le_refl _), hYields'⟩

end Control

namespace Activation

/-- A frame stands at the start of a block. -/
def StartsAt (a : Activation) (target : BlockId) (store : Store) (frame : Frame) : Prop :=
  ∀ body : Body, body.draft.block = target → body.draft.function.bodyAt target = [] →
    a.Stands body store frame

/-- A run goes on, in one step or more, to the start of a block. -/
def Enters (a : Activation) (store : Store) (frame : Frame) (n : Nat) (target : BlockId) : Prop :=
  ∃ steps next, advance standardHost a.module a.limit (steps + 1) (a.running frame store) =
    a.running next store ∧ frame.Keeps n next ∧ a.StartsAt target store next

theorem Enters.mono {a : Activation} {store : Store} {frame : Frame} {m n : Nat} {target : BlockId}
    (h : a.Enters store frame n target) (hLe : m ≤ n) : a.Enters store frame m target := by
  obtain ⟨steps, next, hSteps, hKeeps, hNext⟩ := h
  exact ⟨steps, next, hSteps, hKeeps.mono hLe, hNext⟩

theorem Stage.of_leaves {a : Activation} {context : Context} {plan plan' : Plan} {body body' : Body}
    {next : BlockId} (hLeaves : Body.Leaves context plan body next plan' body') (h : a.Stage body') :
    a.Stage body where
  grows := hLeaves.extends_.grows.trans h.grows
  scope name slot hSlot := h.scope name slot (by rwa [hLeaves.scope])
  clean := hLeaves.diagnostics.symm.trans h.clean

theorem Stage.of_leave {a : Activation} {body : Body}
    (hHere : body.draft.block.index < body.draft.function.blocks.size) {terminator : Instruction}
    (hAlloca : terminator.isAlloca = false) {next : BlockId}
    (h : a.Stage (body.leave terminator next)) : a.Stage body where
  grows := by
    have hGrows := h.grows
    rw [Body.draft_leave] at hGrows
    exact (Function.grows_add hHere hAlloca).trans hGrows
  scope name slot hSlot := h.scope name slot (by rwa [Body.scope_leave])
  clean := by
    rw [← h.clean, Body.diagnostics_leave]

theorem Stands.jump {a : Activation} (ha : a.Fit) {body : Body} {store : Store} {frame : Frame}
    (h : a.Stands body store frame) (hHere : body.draft.block.index < body.draft.function.blocks.size)
    {target next : BlockId} (hStage : a.Stage (body.leave (.jump target) next))
    (hKnown : target.index < a.function.blocks.size) (hEntry : target ≠ ⟨0⟩) (n : Nat) :
    a.Enters store frame n target := by
  have hCode : body.draft.function.bodyAt body.draft.block ++ [.jump target] <+:
      a.function.bodyAt body.draft.block := by
    have hLeave := hStage.grows.body body.draft.block
    rw [Body.bodyAt_leave _ hHere rfl, if_pos rfl] at hLeave
    exact hLeave
  obtain ⟨after, hStep, -, hKeeps, hAfter⟩ := h.leave ha hCode target (fun _ => rfl) hKnown hEntry
  exact ⟨0, after, hStep, hKeeps n, hAfter⟩

end Activation

/-- The block that a loop goes to after its test. -/
def exitOf (inside after : BlockId) : Option Word → BlockId
  | some word => if word ≠ 0 then inside else after
  | none => after

section Loop

variable {a : Activation} (ha : a.Fit) {context : Context} {plan : Plan} {body : Body}
include ha

theorem leaveTest_enters (h : body.Ready context plan) {inside after : BlockId} {value : Option Operand}
    (hValue : Valued plan body value) (hStage : a.Stage (leaveTest inside after value body).2)
    (hInside : inside.index < a.function.blocks.size ∧ inside ≠ ⟨0⟩)
    (hAfter : after.index < a.function.blocks.size ∧ after ≠ ⟨0⟩) {store : Store} {frame : Frame}
    (hStands : a.Stands body store frame) {result : Option Word}
    (hYields : frame.Yields body.draft.function value result) :
    a.Enters store frame body.draft.function.registers.size (exitOf inside after result) := by
  match value, result, hYields with
  | none, none, _ => exact hStands.jump ha h.draft.block_lt hStage hAfter.1 hAfter.2 _
  | some value, some word, hYields =>
    obtain ⟨ty, hUsable⟩ := hValue value rfl
    have hStays := (isTrue_stays h hUsable).1
    have hHere := hStays.ready.draft.block_lt
    change a.Stage ((isTrue value body).2.leave (.branch (isTrue value body).1 inside after) inside)
      at hStage
    obtain ⟨steps, middle, hSteps, hMiddle, hKeeps, hReads⟩ := Arrives.of_simulates
      (isTrue_simulates h hUsable fun _ hDenotes => hDenotes) (Stage.of_leave hHere rfl hStage) hStands
      hYields
    have hCode : (isTrue value body).2.draft.function.bodyAt (isTrue value body).2.draft.block ++
        [.branch (isTrue value body).1 inside after] <+:
        a.function.bodyAt (isTrue value body).2.draft.block := by
      have hLeave := hStage.grows.body (isTrue value body).2.draft.block
      rw [Body.bodyAt_leave _ hHere rfl, if_pos rfl] at hLeave
      exact hLeave
    have hTarget : (exitOf inside after (some word)).index < a.function.blocks.size ∧
        exitOf inside after (some word) ≠ ⟨0⟩ := by
      rw [exitOf]
      split
      · exact hInside
      · exact hAfter
    obtain ⟨next, hStep, -, hKeeps', hNext⟩ := hMiddle.leave ha hCode (exitOf inside after (some word))
      (by
        intro rest
        simp only [execute]
        rw [middle.read_past rest, hReads.1]
        by_cases hWord : word ≠ 0
        · rw [exitOf, if_pos hWord, decide_eq_true hWord]
          rfl
        · rw [exitOf, if_neg hWord, decide_eq_false hWord]
          rfl) hTarget.1 hTarget.2
    refine ⟨steps, next, ?_, hKeeps.trans (hKeeps' _) (Nat.le_refl _), hNext⟩
    rw [advance_add, hSteps, hStep]

end Loop

/-- Whether the value of a condition lets a loop go on. -/
def goesOn (condition : Eval (Option Word)) : Eval Bool := do
  match ← condition with
  | none => return false
  | some word => return decide (word ≠ 0)

section Iterate

variable {a : Activation} {n : Nat} {head inside after : BlockId} {condition : Eval (Option Word)}
  {round : Eval Unit}
  (hCondition : ∀ frame store, a.StartsAt head store frame →
    Follows a.module a.limit a.fuel (a.running frame store)
      (fun value store' p => ∃ next, p = a.running next store' ∧ frame.Keeps n next ∧
        a.Enters store' next n (exitOf inside after value)) (condition store))
  (hRound : ∀ frame store, a.StartsAt inside store frame →
    Follows a.module a.limit a.fuel (a.running frame store)
      (fun _ store' p => ∃ next, p = a.running next store' ∧ frame.Keeps n next ∧
        a.Enters store' next n head) (round store))
include hCondition hRound

/-- Rounds of a loop are followed one after the other, and each takes at least one step. -/
theorem iterate_follows (rounds : Nat) {k : Nat} (hk : k ≤ rounds) (hFuel : k ≤ a.fuel) {frame : Frame}
    {store : Store} (hStart : a.StartsAt head store frame) :
    Follows a.module a.limit k (a.running frame store)
      (fun _ store' p => ∃ next, p = a.running next store' ∧ frame.Keeps n next ∧
        a.StartsAt after store' next) (iterate (goesOn condition) round rounds store) := by
  induction rounds generalizing k frame store with
  | zero => exact ⟨0, hk, frame, a.callers, _, rfl⟩
  | succ rounds ih =>
    rw [iterate, goesOn, bind_assoc]
    refine ((hCondition frame store hStart).le hFuel).bind ?_
    rintro value store' q ⟨middle, rfl, hKeeps, steps, next, hSteps, hKeeps', hNext⟩
    -- a condition without a value leaves the loop just as a zero does
    have hDone : (exitOf inside after value = after) →
        Follows a.module a.limit k (a.running middle store')
          (fun _ store' p => ∃ next, p = a.running next store' ∧ frame.Keeps n next ∧
            a.StartsAt after store' next) ((Pure.pure () : Eval Unit) store') := by
      intro hExit
      rw [hExit] at hNext
      exact .after hSteps (Nat.le_add_left _ _)
        (.now ⟨next, rfl, hKeeps.trans hKeeps' (Nat.le_refl _), hNext⟩)
    match value with
    | none => exact hDone rfl
    | some word =>
      by_cases hWord : word ≠ 0
      · rw [pure_bind, decide_eq_true hWord]
        rw [exitOf, if_pos hWord] at hNext
        refine .after hSteps (Nat.le_add_left _ _) (((hRound next store' hNext).le hFuel).bind ?_)
        rintro - store'' q ⟨last, rfl, hKeepsLast, steps', back, hSteps', hKeepsBack, hBack⟩
        refine ((ih (k := k - 1) (by omega) (by omega) hBack).mono ?_).after hSteps' (by omega)
        rintro - final q ⟨exit, rfl, hKeepsExit, hExit⟩
        refine ⟨exit, rfl, ?_, hExit⟩
        exact (((hKeeps.trans hKeeps' (Nat.le_refl _)).trans hKeepsLast (Nat.le_refl _)).trans hKeepsBack
          (Nat.le_refl _)).trans hKeepsExit (Nat.le_refl _)
      · rw [pure_bind, decide_eq_false hWord]
        exact hDone (if_neg hWord)

end Iterate

/-- A loop follows the rounds of an evaluation, if there are as many as the run has to last. -/
theorem repeated_simulates {a : Activation} (ha : a.Fit) {context : Context} {plan : Plan} {body : Body}
    {pre : Frame → Prop} (h : body.Ready context plan) {rounds : Nat} (hFuel : a.fuel ≤ rounds)
    {condition : Lower (Option Operand)} {inner : Lower Unit} {test : Eval (Option Word)}
    {round : Eval Unit} {p : Bool}
    (hCondition : ∀ plan body, body.Ready context plan →
      Simulates a context plan body (fun _ => True) condition test (ValuedAs p) Yielding)
    (hInner : ∀ plan body, body.Ready context plan →
      Simulates a context plan body (fun _ => True) inner round (fun _ _ _ => True)
        (fun _ _ _ _ => True)) :
    Simulates a context plan body pre (repeated condition inner)
      (iterate (goesOn test) round rounds >>= fun _ => pure none) (ValuedAs false) Yielding := by
  obtain ⟨plan₁, plan₂, plan₃, plan₄, hLoops, hValued⟩ := repeated_loops h
    (fun plan body hReady => by
      obtain ⟨plan', hMoves, hValue⟩ := (hCondition plan body hReady).1
      exact ⟨plan', hMoves, hValue.1⟩)
    (fun plan body hReady => (hInner plan body hReady).1)
  have hLeaves := jump_leaves hLoops.inner.ready (hLoops.back_target h) hLoops.after_mem
    hLoops.after_ne_exit
  refine ⟨⟨_, hLoops.moves h hLeaves, valued_none _ _, fun _ => rfl⟩, ?_⟩
  intro hStage frame store hStands _
  have hStageFour : a.Stage _ := hStage.of_leaves hLeaves
  have hStageThree := hStageFour.back hLoops.inner
  have hStageOne := hStageThree.of_leaves hLoops.exit
  have hStageOpened := hStageOne.back hLoops.test
  have hTarget : ∀ other ∈ ({((body.newBlock "cond").newBlock "loop").next,
      (body.newBlock "cond").next, body.next} : Set BlockId),
      other.index < a.function.blocks.size ∧ other ≠ ⟨0⟩ := fun other hOther =>
    ⟨Nat.lt_of_lt_of_le (hLoops.known hOther) hStageOpened.grows.blocks, hLoops.ne_zero h hOther⟩
  have hStart : a.Enters store frame body.draft.function.registers.size body.next := by
    have hStands' : a.Stands (((body.newBlock "cond").newBlock "loop").newBlock "afterloop") store frame :=
      hStands.congr rfl (by rw [Body.bodyAt_newBlock, Body.bodyAt_newBlock, Body.bodyAt_newBlock])
    have hHere : body.draft.block.index <
        (((body.newBlock "cond").newBlock "loop").newBlock "afterloop").draft.function.blocks.size := by
      have hSize := h.draft.block_lt
      rw [Body.size_newBlock, Body.size_newBlock, Body.size_newBlock]
      omega
    exact hStands'.jump ha hHere hStageOpened (hTarget _ (.inr (.inr rfl))).1
      (hTarget _ (.inr (.inr rfl))).2 _
  have hKept : body.draft.function.registers.size ≤ body.openLoop.draft.function.registers.size :=
    hLoops.opens.extends_.grows.registers.size_le
  have hTests : ∀ frame store, a.StartsAt body.next store frame →
      Follows a.module a.limit a.fuel (a.running frame store)
        (fun value store' p => ∃ next, p = a.running next store' ∧
          frame.Keeps body.draft.function.registers.size next ∧
          a.Enters store' next body.draft.function.registers.size
            (exitOf (body.newBlock "cond").next ((body.newBlock "cond").newBlock "loop").next value))
        (test store) := by
    intro frame store hAt
    refine ((hCondition plan₁ _ hLoops.opens.ready).2 hStageOne frame store
      (hAt _ hLoops.block (hLoops.opens.empty _ (.inr (.inr rfl)))) trivial).mono ?_
    rintro value after q ⟨next, rfl, hNext, hKeeps, hYields⟩
    refine ⟨next, rfl, hKeeps.mono hKept, (leaveTest_enters ha hLoops.test.ready hValued hStageThree
      (hTarget _ (.inr (.inl rfl))) (hTarget _ (.inl rfl)) hNext hYields).mono ?_⟩
    exact hKept.trans hLoops.test.flow.extends_.grows.registers.size_le
  have hRounds : ∀ frame store, a.StartsAt (body.newBlock "cond").next store frame →
      Follows a.module a.limit a.fuel (a.running frame store)
        (fun _ store' p => ∃ next, p = a.running next store' ∧
          frame.Keeps body.draft.function.registers.size next ∧
          a.Enters store' next body.draft.function.registers.size body.next) (round store) := by
    intro frame store hAt
    refine ((hInner plan₃ _ hLoops.exit.ready).2 hStageFour frame store
      (hAt _ hLoops.exit.block (hLoops.empty_three (.inr (.inl rfl)) hLoops.inside_ne)) trivial).mono ?_
    rintro - after q ⟨next, rfl, hNext, hKeeps, -⟩
    refine ⟨next, rfl, hKeeps.mono ?_, hNext.jump ha hLoops.inner.ready.draft.block_lt hStage
      (hTarget _ (.inr (.inr rfl))).1 (hTarget _ (.inr (.inr rfl))).2 _⟩
    exact (hKept.trans hLoops.test.flow.extends_.grows.registers.size_le).trans
      hLoops.exit.extends_.grows.registers.size_le
  obtain ⟨steps, next, hSteps, hKeeps, hNext⟩ := hStart
  refine .after hSteps (Nat.le_add_left _ _)
    ((iterate_follows hTests hRounds rounds hFuel (Nat.le_refl _) hNext).bind ?_)
  rintro - after q ⟨last, rfl, hKeeps', hLast⟩
  have hEmpty := hLoops.empty_after
  rw [← hLeaves.extends_.kept _ (Nat.lt_of_lt_of_le (hLoops.known_three (.inl rfl))
    hLoops.inner.flow.extends_.grows.blocks) hLoops.after_ne_exit] at hEmpty
  exact .now ⟨last, rfl, hLast _ rfl hEmpty, hKeeps.trans hKeeps' (Nat.le_refl _), trivial⟩

end Slate
