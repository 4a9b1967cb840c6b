import Slate.Proofs.Lowering.Actions

/-! # Lowering conditionals and loops

Conditionals and loops are taken apart into actions on their parts. A conditional forks into two arms that
meet again; a loop leaves a test to its body or to what comes after it, and the body leads back to
the test.
-/

namespace Slate.Lowering
set_option autoImplicit false

open Draft (Usable Flow)
open Body (Moves Stays)

variable {context : Context} {plan : Plan} {body : Body}

/-- The current block ends and the body goes on in another one. -/
def Body.leave (body : Body) (terminator : Instruction) (next : BlockId) : Body :=
  (body.withFunction (body.draft.function.add body.draft.block terminator)).goTo next

def Body.newBlock (body : Body) (label : String) : Body :=
  body.withFunction (body.draft.function.newBlock label)

/-- The block that `newBlock` makes. -/
def Body.next (body : Body) : BlockId := body.draft.function.blocks.nextId

namespace Body

@[simp] theorem draft_leave (body : Body) (terminator : Instruction) (next : BlockId) :
    (body.leave terminator next).draft =
      ⟨body.draft.function.add body.draft.block terminator, next⟩ :=
  rfl

@[simp] theorem scope_leave (body : Body) (terminator : Instruction) (next : BlockId) :
    (body.leave terminator next).scope = body.scope := by
  simp only [leave, goTo, withFunction]

@[simp] theorem diagnostics_leave (body : Body) (terminator : Instruction) (next : BlockId) :
    (body.leave terminator next).diagnostics = body.diagnostics := by
  simp only [leave, goTo, withFunction]

theorem next_ne {id : BlockId} (hId : id.index < body.draft.function.blocks.size) : id ≠ body.next :=
  Id.ne_of_index_lt hId

theorem Ready.next_ne_zero (h : body.Ready context plan) : body.next ≠ ⟨0⟩ :=
  (Id.ne_of_index_lt h.draft.size_pos).symm

theorem Ready.leave (h : body.Ready context plan) {plan' : Plan} {terminator : Instruction}
    {next : BlockId} (hDraft : (body.leave terminator next).draft.Ready context plan') :
    (body.leave terminator next).Ready context plan' := by
  refine ⟨hDraft, fun name slot hSlot => ?_⟩
  rw [scope_leave] at hSlot
  rw [draft_leave, Function.slots_add]
  exact h.scope name slot hSlot

theorem bodyAt_leave (body : Body) (hHere : body.draft.block.index < body.draft.function.blocks.size)
    {terminator : Instruction} (hAlloca : terminator.isAlloca = false) (next id : BlockId) :
    (body.leave terminator next).draft.function.bodyAt id = if id = body.draft.block then
      body.draft.function.bodyAt id ++ [terminator] else body.draft.function.bodyAt id :=
  Function.bodyAt_add _ hHere hAlloca id

@[simp] theorem block_newBlock (body : Body) (label : String) :
    (body.newBlock label).draft.block = body.draft.block :=
  rfl

theorem size_newBlock (body : Body) (label : String) :
    (body.newBlock label).draft.function.blocks.size = body.draft.function.blocks.size + 1 :=
  Table.size_push _ _

theorem Ready.newBlock (h : body.Ready context plan) (label : String) (written : RegisterId → Prop) :
    (body.newBlock label).Ready context (plan.add body.next written) :=
  h.withFunction (h.draft.newBlock label written)
    (Function.Extends.newBlock body.draft.block plan _ label written).grows

theorem extends_newBlock (at_ : BlockId) (plan : Plan) (body : Body) (label : String)
    (written : RegisterId → Prop) : Function.Extends at_ plan body.draft.function
      (plan.add body.next written) (body.newBlock label).draft.function :=
  Function.Extends.newBlock at_ plan _ label written

theorem bodyAt_newBlock (body : Body) (label : String) (id : BlockId) :
    (body.newBlock label).draft.function.bodyAt id = body.draft.function.bodyAt id :=
  Function.bodyAt_newBlock _ label id

theorem bodyAt_next (body : Body) : body.draft.function.bodyAt body.next = [] :=
  body.draft.function.bodyAt_of_size_le (Nat.le_refl _)

end Body

/-- Two new blocks, and a branch to them at the end of the current one. -/
def Body.fork (body : Body) (test : Operand) : Body :=
  ((body.newBlock "then").newBlock "else").leave
    (.branch test body.next (body.newBlock "then").next) body.next

/-- A conditional, given its test and its arms. -/
def conditional (positive negative : Lower (Option Operand)) (test : Operand) :
    Lower (Option Operand) := do
  let elseBlock := ((← get).newBlock "then").next
  modify (Body.fork · test)
  let thenValue ← positive
  let thenExit := (← get).draft.block
  modify (Body.goTo · elseBlock)
  let elseValue ← negative
  merge thenExit (← get).draft.block thenValue elseValue

theorem expression_branch (callees : Callees) (span : Span) (condition : Expr)
    (positive negative : List Expr) :
    expression callees (.branch span condition positive negative) =
      (expression callees condition >>= fun
        | none => pure none
        | some value => isTruthy value >>= conditional (arm callees (some (word 0)) positive)
            (arm callees (some (word 0)) negative)) := by
  rw [expression]
  rfl

/-- Three new blocks, and a jump to the first of them. -/
def Body.openLoop (body : Body) : Body :=
  (((body.newBlock "cond").newBlock "loop").newBlock "afterloop").leave (.jump body.next) body.next

/-- Ends the block of a loop's condition, which may have no value. -/
def leaveTest (inside after : BlockId) : Option Operand → Lower Unit
  | some value => do
    let test ← isTrue value
    modify (Body.leave · (.branch test inside after) inside)
  | none => modify (Body.leave · (.jump after) inside)

/-- A loop, given its condition and what is repeated. -/
def repeated (condition : Lower (Option Operand)) (inner : Lower Unit) : Lower (Option Operand) := do
  let start ← get
  let inside := (start.newBlock "cond").next
  let after := ((start.newBlock "cond").newBlock "loop").next
  set start.openLoop
  leaveTest inside after (← condition)
  inner
  modify (Body.leave · (.jump start.next) after)
  return none

theorem expression_loop (callees : Callees) (span : Span) (initializer condition step : Expr)
    (inner : List Expr) :
    expression callees (.loop span initializer condition step inner) =
      (expression callees initializer >>= fun _ =>
        repeated (expression callees condition)
          (arm callees none inner >>= fun _ => expression callees step >>= fun _ => pure ())) := by
  rw [expression]
  refine bind_congr fun _ => funext fun body => ?_
  have hTest : ∀ result : Option Operand × Body, ∀ inside after : BlockId, ∀ next : Lower (Option Operand),
      (match result.1 with
        | some value => isTrue value >>= fun test =>
          draft (Draft.branch test inside after) >>= fun _ => draft (Draft.moveTo inside) >>= fun _ => next
        | none => draft (Draft.jump after) >>= fun _ => draft (Draft.moveTo inside) >>= fun _ => next)
        result.2 = (leaveTest inside after result.1 >>= fun _ => next) result.2 := by
    intro result inside after next
    cases result.1 <;> rfl
  exact hTest (expression callees condition body.openLoop) _ _ _

/-- A block that a jump or a branch may lead to. -/
structure Body.Target (plan : Plan) (body : Body) (id : BlockId) : Prop where
  known : id.index < body.draft.function.blocks.size
  entry : id ≠ ⟨0⟩
  phis : ∀ other ∈ body.draft.function.bodyAt id, other.isPhi = false
  written : ∀ register, plan.entering id register →
    body.draft.function.Leaving plan.entering body.draft.block register

/-- New blocks have been made and not yet used. -/
structure Body.Allots (context : Context) (plan : Plan) (body : Body) (news : Set BlockId)
    (plan' : Plan) (body' : Body) : Prop where
  ready : body'.Ready context plan'
  block : body'.draft.block = body.draft.block
  new : ∀ id ∈ news, body.draft.function.blocks.size ≤ id.index
  extends_ : Function.Extends body.draft.block plan body.draft.function plan' body'.draft.function
  frontier : ∀ id, id ∈ plan'.frontier ↔ id ∈ news ∨ id ∈ plan.frontier
  entering : ∀ id ∈ news,
    plan'.entering id = body.draft.function.Leaving plan.entering body.draft.block
  empty : ∀ id ∈ news, body'.draft.function.bodyAt id = []
  scope : body'.scope = body.scope
  diagnostics : body'.diagnostics = body.diagnostics

/-- The body has gone on in one of several new blocks, whatever was written before. -/
structure Body.Opens (context : Context) (plan : Plan) (body : Body) (news : Set BlockId)
    (plan' : Plan) (body' : Body) : Prop where
  ready : body'.Ready context plan'
  new : ∀ id ∈ news, body.draft.function.blocks.size ≤ id.index
  extends_ : Function.Extends body.draft.block plan body.draft.function plan' body'.draft.function
  frontier : ∀ id, id ∈ plan'.frontier ↔ id ∈ news ∨ id ∈ plan.frontier ∧ id ≠ body.draft.block
  entering : ∀ id ∈ news,
    plan'.entering id = body.draft.function.Leaving plan.entering body.draft.block
  empty : ∀ id ∈ news, body'.draft.function.bodyAt id = []
  scope : body'.scope = body.scope
  diagnostics : body'.diagnostics = body.diagnostics

namespace Body.Allots

theorem refl (h : body.Ready context plan) : Allots context plan body ∅ plan body where
  ready := h
  block := rfl
  new _ hId := absurd hId (Set.notMem_empty _)
  extends_ := .refl _ _ _
  frontier id := (or_iff_right (Set.notMem_empty id)).symm
  entering _ hId := absurd hId (Set.notMem_empty _)
  empty _ hId := absurd hId (Set.notMem_empty _)
  scope := rfl
  diagnostics := rfl

variable {news : Set BlockId} {plan' : Plan} {body' : Body}
  (hAllots : Allots context plan body news plan' body') (h : body.Ready context plan)
include hAllots h

theorem newBlock (label : String) :
    ∃ plan'', Allots context plan body (insert body'.next news) plan'' (body'.newBlock label) := by
  have hKnown : ∀ id ∈ news, id ≠ body'.next := fun id hId =>
    next_ne (hAllots.ready.draft.staged.known id ((hAllots.frontier id).mpr (.inl hId)))
  refine ⟨plan'.add body'.next (body.draft.function.Leaving plan.entering body.draft.block),
    hAllots.ready.newBlock label _, hAllots.block, ?_,
    hAllots.extends_.trans (extends_newBlock body.draft.block _ _ _ _) h.draft.block_lt (.inl rfl),
    ?_, ?_, ?_, hAllots.scope, hAllots.diagnostics⟩
  · rintro id (rfl | hId)
    · exact hAllots.extends_.grows.blocks
    · exact hAllots.new id hId
  · intro id
    refine Iff.trans ?_ or_assoc.symm
    exact or_congr_right (hAllots.frontier id)
  · rintro id (rfl | hId)
    · exact Plan.entering_add _ _ _
    · rw [Plan.entering_add_of_ne _ (hKnown id hId)]
      exact hAllots.entering id hId
  · rintro id (rfl | hId)
    · rw [bodyAt_newBlock, bodyAt_next]
    · rw [bodyAt_newBlock]
      exact hAllots.empty id hId

theorem block_not_mem : body.draft.block ∉ news := fun hMem =>
  Nat.not_le.mpr h.draft.block_lt (hAllots.new _ hMem)

theorem target {id : BlockId} (hId : id ∈ news) : body'.Target plan' id := by
  refine ⟨hAllots.ready.draft.staged.known id ((hAllots.frontier id).mpr (.inl hId)), ?_, ?_, ?_⟩
  · exact (Id.ne_of_index_lt (Nat.lt_of_lt_of_le h.draft.size_pos (hAllots.new id hId))).symm
  · rw [hAllots.empty id hId]
    exact fun _ hMem => by cases hMem
  · intro register hRegister
    rw [hAllots.entering id hId] at hRegister
    rw [hAllots.block]
    exact hAllots.extends_.leaving h.draft.block_lt hRegister

/-- The current block ends in a terminator that leads to new blocks. -/
theorem opens {terminator : Instruction} {next : BlockId}
    (hAlloca : terminator.isAlloca = false) (hPhi : terminator.isPhi = false)
    (hReady : (body'.leave terminator next).draft.Ready context (plan'.close body'.draft.block)) :
    Opens context plan body news (plan'.close body'.draft.block) (body'.leave terminator next) := by
  have hNe : ∀ id ∈ news, id ≠ body'.draft.block := by
    rintro id hId rfl
    rw [hAllots.block] at hId
    exact hAllots.block_not_mem h hId
  refine ⟨hAllots.ready.leave hReady, hAllots.new, ?_, ?_, hAllots.entering, ?_, ?_, ?_⟩
  · refine hAllots.extends_.trans (.add hAllots.ready.draft.block_lt hAlloca hPhi rfl) h.draft.block_lt
      (.inl hAllots.block)
  · intro id
    rw [← hAllots.block]
    constructor
    · rintro ⟨hMem, hOther⟩
      exact ((hAllots.frontier id).mp hMem).imp_right fun hOld => ⟨hOld, hOther⟩
    · rintro (hId | ⟨hOld, hOther⟩)
      · exact ⟨(hAllots.frontier id).mpr (.inl hId), hNe id hId⟩
      · exact ⟨(hAllots.frontier id).mpr (.inr hOld), hOther⟩
  · intro id hId
    rw [bodyAt_leave _ hAllots.ready.draft.block_lt hAlloca, if_neg (hNe id hId)]
    exact hAllots.empty id hId
  · rw [scope_leave, hAllots.scope]
  · rw [diagnostics_leave, hAllots.diagnostics]

end Body.Allots

theorem fork_opens (h : body.Ready context plan) {test : Operand}
    (hTest : Usable plan body.draft test .i1) :
    ∃ plan', Body.Opens context plan body {(body.newBlock "then").next, body.next} plan'
      (body.fork test) := by
  obtain ⟨_, hThen⟩ := (Body.Allots.refl h).newBlock h "then"
  obtain ⟨plan', hElse⟩ := hThen.newBlock h "else"
  rw [insert_empty_eq] at hElse
  refine ⟨_, hElse.opens h rfl rfl ?_⟩
  have hNext : body.next ∈ plan'.frontier := (hElse.frontier _).mpr (.inl (.inr rfl))
  have hNe : body.next ≠ body.draft.block := (Body.next_ne h.draft.block_lt).symm
  refine hElse.ready.draft.branch (hTest.extends_ h.draft.block_lt hElse.extends_) ?_ hNext hNe
  rintro target (rfl | rfl)
  · have hTarget := hElse.target h (.inr rfl)
    exact ⟨hTarget.known, hTarget.entry, hTarget.phis, hTarget.written⟩
  · have hTarget := hElse.target h (.inl rfl)
    exact ⟨hTarget.known, hTarget.entry, hTarget.phis, hTarget.written⟩

namespace Body.Opens

variable {news : Set BlockId} {plan₁ plan₂ : Plan} {opened one : Body}
  (hOpens : Opens context plan body news plan₁ opened) (hFirst : Moves context plan₁ opened plan₂ one)
  {other : BlockId} (hOther : other ∈ news) (hNe : other ≠ opened.draft.block)
include hOpens hFirst hOther hNe

/-- The other new blocks stay open while one of them is filled. -/
theorem mem_frontier : other ∈ plan₂.frontier :=
  (hFirst.flow.frontier other).mpr (.inr ⟨(hOpens.frontier other).mpr (.inl hOther), hNe⟩)

theorem exit_ne : one.draft.block ≠ other := by
  rcases hFirst.flow.arrives with hEq | hLarge
  · rw [hEq]
    exact hNe.symm
  · have hKnown := hOpens.ready.draft.staged.known other ((hOpens.frontier other).mpr (.inl hOther))
    exact (Id.ne_of_index_lt (Nat.lt_of_lt_of_le hKnown hLarge)).symm

theorem bodyAt_eq_nil : one.draft.function.bodyAt other = [] := by
  have hKnown := hOpens.ready.draft.staged.known other ((hOpens.frontier other).mpr (.inl hOther))
  rw [hFirst.flow.extends_.kept other hKnown hNe]
  exact hOpens.empty other hOther

omit hNe in
theorem entering_eq : plan₂.entering other =
    body.draft.function.Leaving plan.entering body.draft.block := by
  have hKnown := hOpens.ready.draft.staged.known other ((hOpens.frontier other).mpr (.inl hOther))
  rw [hFirst.flow.extends_.agrees other hKnown]
  exact hOpens.entering other hOther

end Body.Opens

/-- The arms of a conditional that are lowered and not yet joined. The first one ended in block `x`. -/
structure Body.Splits (context : Context) (plan : Plan) (body : Body) (x : BlockId) (plan' : Plan)
    (body' : Body) : Prop where
  ready : body'.Ready context plan'
  here : x ∈ plan'.frontier
  apart : x ≠ body'.draft.block
  frontier : ∀ id, id ∈ plan'.frontier ↔ id = x ∨ id = body'.draft.block ∨
    id ∈ plan.frontier ∧ id ≠ body.draft.block
  new : body.draft.function.blocks.size ≤ x.index ∧
    body.draft.function.blocks.size ≤ body'.draft.block.index
  extends_ : Function.Extends body.draft.block plan body.draft.function plan' body'.draft.function
  carries : ∀ id, body.draft.function.Leaving plan.entering body.draft.block id →
    body'.draft.function.Leaving plan'.entering x id ∧
      body'.draft.function.Leaving plan'.entering body'.draft.block id
  scope : ∀ name slot, body.scope.find? name = some slot → body'.scope.find? name = some slot
  diagnostics : body.diagnostics <+: body'.diagnostics

theorem Body.Opens.splits {t e : BlockId} {plan₁ plan₂ plan₃ : Plan} {forked one two : Body}
    (hOpens : Body.Opens context plan body {e, t} plan₁ forked) (hBlock : forked.draft.block = t)
    (hApart : e ≠ t) (h : body.Ready context plan) (hFirst : Moves context plan₁ forked plan₂ one)
    (hSecond : Moves context plan₂ (one.goTo e) plan₃ two) :
    Body.Splits context plan body one.draft.block plan₃ two := by
  have hNe : e ≠ forked.draft.block := by
    rw [hBlock]
    exact hApart
  have hExit := hOpens.exit_ne hFirst (.inl rfl) hNe
  have hLess : one.draft.block.index < one.draft.function.blocks.size := hFirst.ready.draft.block_lt
  have hNext : body.draft.function.blocks.size ≤ forked.draft.block.index := by
    rw [hBlock]
    exact hOpens.new t (.inr rfl)
  have hGrows : body.draft.function.blocks.size ≤ one.draft.function.blocks.size :=
    Nat.le_trans hOpens.extends_.grows.blocks hFirst.flow.extends_.grows.blocks
  have hNew : body.draft.function.blocks.size ≤ one.draft.block.index := by
    rcases hFirst.flow.arrives with hEq | hLarge
    · rw [hEq]
      exact hNext
    · exact Nat.le_trans hOpens.extends_.grows.blocks hLarge
  have hOne := hOpens.extends_.trans hFirst.flow.extends_ h.draft.block_lt (.inr hNext)
  refine ⟨hSecond.ready, ?_, ?_, ?_, ⟨hNew, ?_⟩, ?_, ?_, ?_, ?_⟩
  · exact (hSecond.flow.frontier _).mpr (.inr ⟨hFirst.ready.draft.here, hExit⟩)
  · rcases hSecond.flow.arrives with hEq | hLarge
    · rw [hEq]
      exact hExit
    · exact Id.ne_of_index_lt (Nat.lt_of_lt_of_le hLess hLarge)
  · intro id
    rw [hSecond.flow.frontier, hFirst.flow.frontier, hOpens.frontier, hBlock]
    constructor
    · rintro (hEq | ⟨hEq | ⟨(hEq | hEq) | hOld, hNe⟩, hNe'⟩)
      · exact .inr (.inl hEq)
      · exact .inl hEq
      · exact absurd hEq hNe'
      · exact absurd hEq hNe
      · exact .inr (.inr hOld)
    · rintro (hEq | hEq | hOld)
      · exact .inr ⟨.inl hEq, hEq ▸ hExit⟩
      · exact .inl hEq
      · have hOldNe : ∀ other ∈ ({e, t} : Set BlockId), id ≠ other := fun other hOther =>
          Id.ne_of_index_lt (Nat.lt_of_lt_of_le (h.draft.staged.known id hOld.1) (hOpens.new other hOther))
        exact .inr ⟨.inr ⟨.inr hOld, hOldNe t (.inr rfl)⟩, hOldNe e (.inl rfl)⟩
  · rcases hSecond.flow.arrives with hEq | hLarge
    · rw [hEq]
      exact hOpens.new e (.inl rfl)
    · exact Nat.le_trans hGrows hLarge
  · exact hOne.trans hSecond.flow.extends_ h.draft.block_lt (.inr (hOpens.new e (.inl rfl)))
  · intro id hId
    constructor
    · refine hSecond.flow.extends_.leaving hLess (hFirst.flow.carries id (.inl ?_))
      rw [hBlock, hOpens.entering t (.inr rfl)]
      exact hId
    · refine hSecond.flow.carries id (.inl ?_)
      change plan₂.entering e id
      rw [hOpens.entering_eq hFirst (.inl rfl)]
      exact hId
  · intro name slot hSlot
    rw [← hOpens.scope] at hSlot
    exact hSecond.scope name slot (hFirst.scope name slot hSlot)
  · rw [← hOpens.diagnostics]
    exact hFirst.diagnostics.trans hSecond.diagnostics

/-- Joining the arms of a conditional. -/
theorem Body.Splits.moves {x : BlockId} {plan₁ plan₂ : Plan} {two joined : Body}
    (hSplits : Body.Splits context plan body x plan₁ two)
    (hMerges : Body.Merges context plan₁ two x two.draft.block
      (body.draft.function.Leaving plan.entering body.draft.block) plan₂ joined)
    (h : body.Ready context plan) : Moves context plan body plan₂ joined := by
  have hGrows := hSplits.extends_.grows.blocks
  refine ⟨hMerges.ready, ⟨?_, ?_, ?_, ?_⟩, ?_, ?_⟩
  · exact hMerges.extends_ _ _ _ hSplits.extends_ h.draft.block_lt (.inr hSplits.new.1)
      (.inr hSplits.new.2)
  · rw [hMerges.block]
    exact .inr hGrows
  · intro id
    rw [hMerges.frontier, hSplits.frontier, hMerges.block]
    refine or_congr_right ⟨?_, fun hOld => ⟨.inr (.inr hOld), ?_, ?_⟩⟩
    · rintro ⟨hEq | hEq | hOld, hNeX, hNeY⟩
      · exact absurd hEq hNeX
      · exact absurd hEq hNeY
      · exact hOld
    · exact Id.ne_of_index_lt (Nat.lt_of_lt_of_le (h.draft.staged.known id hOld.1) hSplits.new.1)
    · exact Id.ne_of_index_lt (Nat.lt_of_lt_of_le (h.draft.staged.known id hOld.1) hSplits.new.2)
  · intro id hId
    refine .inl ?_
    rw [hMerges.block, hMerges.entering]
    exact hId
  · intro name slot hSlot
    rw [hMerges.scope]
    exact hSplits.scope name slot hSlot
  · rw [hMerges.diagnostics]
    exact hSplits.diagnostics

theorem conditional_leads (h : body.Ready context plan) {positive negative : Lower (Option Operand)}
    (hPositive : ∀ plan body, body.Ready context plan → Leads context plan body positive Valued)
    (hNegative : ∀ plan body, body.Ready context plan → Leads context plan body negative Valued)
    {test : Operand} (hTest : Usable plan body.draft test .i1) :
    Leads context plan body (conditional positive negative test) Valued := by
  obtain ⟨plan₁, hOpens⟩ := fork_opens h hTest
  have hApart : (body.newBlock "then").next ≠ body.next :=
    (Body.next_ne (Nat.lt_of_lt_of_eq (Nat.lt_succ_self _) (Body.size_newBlock body _).symm)).symm
  obtain ⟨plan₂, hFirst, hFirstValue⟩ := hPositive plan₁ _ hOpens.ready
  obtain ⟨plan₃, hSecond, hSecondValue⟩ :=
    hNegative plan₂ _ (hFirst.ready.goTo (hOpens.mem_frontier hFirst (.inl rfl) hApart))
  have hSplits := hOpens.splits rfl hApart h hFirst hSecond
  obtain ⟨plan₄, hMerges, hValue⟩ := merge_spec hSplits.ready hSplits.here hSplits.ready.draft.here
    hSplits.apart hSplits.carries (by
      intro operand hOperand
      obtain ⟨ty, hUsable⟩ := hFirstValue operand hOperand
      exact ⟨ty, hUsable.extends_ hFirst.ready.draft.block_lt hSecond.flow.extends_⟩) hSecondValue
  exact ⟨plan₄, hSplits.moves hMerges h, hValue⟩

/-- The current block has ended and the body has gone on in another open block. -/
structure Body.Leaves (context : Context) (plan : Plan) (body : Body) (next : BlockId) (plan' : Plan)
    (body' : Body) : Prop where
  ready : body'.Ready context plan'
  block : body'.draft.block = next
  extends_ : Function.Extends body.draft.block plan body.draft.function plan' body'.draft.function
  size : body'.draft.function.blocks.size = body.draft.function.blocks.size
  frontier : ∀ id, id ∈ plan'.frontier ↔ id ∈ plan.frontier ∧ id ≠ body.draft.block
  entering : plan'.entering = plan.entering
  scope : body'.scope = body.scope
  diagnostics : body'.diagnostics = body.diagnostics

section Leave

variable (h : body.Ready context plan)
include h

theorem leave_leaves {terminator : Instruction} {next : BlockId} (hAlloca : terminator.isAlloca = false)
    (hPhi : terminator.isPhi = false)
    (hReady : (body.leave terminator next).draft.Ready context (plan.close body.draft.block)) :
    Body.Leaves context plan body next (plan.close body.draft.block) (body.leave terminator next) where
  ready := h.leave hReady
  block := rfl
  extends_ := .add h.draft.block_lt hAlloca hPhi rfl
  size := Function.size_add _ _ _
  frontier _ := Iff.rfl
  entering := rfl
  scope := Body.scope_leave _ _ _
  diagnostics := Body.diagnostics_leave _ _ _

theorem jump_leaves {target next : BlockId} (hTarget : body.Target plan target)
    (hNext : next ∈ plan.frontier) (hNe : next ≠ body.draft.block) :
    Body.Leaves context plan body next (plan.close body.draft.block) (body.leave (.jump target) next) :=
  leave_leaves h rfl rfl
    (h.draft.jump hTarget.known hTarget.entry hTarget.phis hTarget.written hNext hNe)

theorem leaveTest_leaves {value : Option Operand} (hValue : Valued plan body value)
    {inside after : BlockId} (hInside : body.Target plan inside) (hAfter : body.Target plan after)
    (hNext : inside ∈ plan.frontier) (hNe : inside ≠ body.draft.block)
    (hAfterNe : after ≠ body.draft.block) :
    ∃ plan', Body.Leaves context plan body inside plan' (leaveTest inside after value body).2 := by
  cases value with
  | none => exact ⟨_, jump_leaves h hAfter hNext hNe⟩
  | some value =>
    obtain ⟨ty, hUsable⟩ := hValue value rfl
    obtain ⟨hStays, hTest⟩ := isTrue_stays h hUsable
    change ∃ plan', Body.Leaves context plan body inside plan'
      ((isTrue value body).2.leave (.branch (isTrue value body).1 inside after) inside)
    generalize isTrue value body = tested at hStays hTest
    have hTarget : ∀ {target : BlockId}, body.Target plan target → target ≠ body.draft.block →
        tested.2.Target plan target := by
      intro target hTarget hOther
      refine ⟨Nat.lt_of_lt_of_eq hTarget.known hStays.size_eq.symm, hTarget.entry, ?_, ?_⟩
      · rw [hStays.flow.extends_.kept target hTarget.known hOther]
        exact hTarget.phis
      · exact fun register hRegister => hStays.flow.carries register (hTarget.written register hRegister)
    have hBranch : Body.Leaves context plan tested.2 inside (plan.close tested.2.draft.block)
        (tested.2.leave (.branch tested.1 inside after) inside) := by
      refine leave_leaves hStays.ready rfl rfl (hStays.ready.draft.branch hTest ?_ hNext ?_)
      · rintro target (rfl | rfl)
        · have hSpec := hTarget hInside hNe
          exact ⟨hSpec.known, hSpec.entry, hSpec.phis, hSpec.written⟩
        · have hSpec := hTarget hAfter hAfterNe
          exact ⟨hSpec.known, hSpec.entry, hSpec.phis, hSpec.written⟩
      · rw [hStays.block_eq]
        exact hNe
    refine ⟨_, hBranch.ready, hBranch.block, ?_, hBranch.size.trans hStays.size_eq, ?_, hBranch.entering,
      hBranch.scope.trans hStays.scope_eq, hBranch.diagnostics.trans hStays.diagnostics_eq⟩
    · exact hStays.flow.extends_.trans hBranch.extends_ h.draft.block_lt (.inl hStays.block_eq)
    · intro id
      rw [← hStays.block_eq]
      exact hBranch.frontier id

end Leave

theorem openLoop_opens (h : body.Ready context plan) :
    ∃ plan', Body.Opens context plan body {((body.newBlock "cond").newBlock "loop").next,
      (body.newBlock "cond").next, body.next} plan' body.openLoop := by
  obtain ⟨_, hCond⟩ := (Body.Allots.refl h).newBlock h "cond"
  obtain ⟨_, hLoop⟩ := hCond.newBlock h "loop"
  obtain ⟨plan', hAfter⟩ := hLoop.newBlock h "afterloop"
  rw [insert_empty_eq] at hAfter
  refine ⟨_, hAfter.opens h rfl rfl ?_⟩
  have hNext : body.next ∈ plan'.frontier := (hAfter.frontier _).mpr (.inl (.inr (.inr rfl)))
  have hTarget := hAfter.target h (.inr (.inr rfl))
  exact hAfter.ready.draft.jump hTarget.known hTarget.entry hTarget.phis hTarget.written hNext
    (Body.next_ne h.draft.block_lt).symm

/-- A loop that is lowered up to its back edge, with its blocks in order: the test starts in `head` and
ends in `one`, the inner part starts in `inside` and ends in `four`, and `after` is still empty. -/
structure Body.Loops (context : Context) (plan : Plan) (body : Body) (head inside after : BlockId)
    (plan₁ plan₂ plan₃ plan₄ : Plan) (opened one three four : Body) : Prop where
  opens : Body.Opens context plan body {after, inside, head} plan₁ opened
  block : opened.draft.block = head
  test : Moves context plan₁ opened plan₂ one
  exit : Body.Leaves context plan₂ one inside plan₃ three
  inner : Moves context plan₃ three plan₄ four
  inside_ne : inside ≠ head
  after_ne : after ≠ head
  after_ne_inside : after ≠ inside

namespace Body.Opens

variable {head inside after : BlockId} {plan₁ plan₂ : Plan} {opened one : Body}
  (hOpens : Opens context plan body {after, inside, head} plan₁ opened)
  (hBlock : opened.draft.block = head) (h : body.Ready context plan)
  (hTest : Moves context plan₁ opened plan₂ one)
include hOpens hBlock h hTest

/-- After the test, the loop can go on to its other blocks. -/
theorem target {other : BlockId} (hOther : other ∈ ({after, inside, head} : Set BlockId))
    (hNe : other ≠ head) : one.Target plan₂ other := by
  have hNe' : other ≠ opened.draft.block := by
    rw [hBlock]
    exact hNe
  refine ⟨hTest.ready.draft.staged.known _ (hOpens.mem_frontier hTest hOther hNe'), ?_, ?_, ?_⟩
  · exact (Id.ne_of_index_lt (Nat.lt_of_lt_of_le h.draft.size_pos (hOpens.new other hOther))).symm
  · rw [hOpens.bodyAt_eq_nil hTest hOther hNe']
    exact fun _ hMem => by cases hMem
  · intro register hRegister
    rw [hOpens.entering_eq hTest hOther] at hRegister
    refine hTest.flow.carries register (.inl ?_)
    rw [hBlock, hOpens.entering head (.inr (.inr rfl))]
    exact hRegister

end Body.Opens

namespace Body.Loops

variable {head inside after : BlockId} {plan₁ plan₂ plan₃ plan₄ : Plan}
  {opened one three four : Body}
  (hLoops : Body.Loops context plan body head inside after plan₁ plan₂ plan₃ plan₄ opened one three four)
  (h : body.Ready context plan)
include hLoops

theorem known {other : BlockId} (hOther : other ∈ ({after, inside, head} : Set BlockId)) :
    other.index < opened.draft.function.blocks.size :=
  hLoops.opens.ready.draft.staged.known other ((hLoops.opens.frontier other).mpr (.inl hOther))

theorem known_three {other : BlockId} (hOther : other ∈ ({after, inside, head} : Set BlockId)) :
    other.index < three.draft.function.blocks.size := by
  rw [hLoops.exit.size]
  exact Nat.lt_of_lt_of_le (hLoops.known hOther) hLoops.test.flow.extends_.grows.blocks

theorem entering {other : BlockId} (hOther : other ∈ ({after, inside, head} : Set BlockId)) :
    plan₄.entering other = body.draft.function.Leaving plan.entering body.draft.block := by
  rw [hLoops.inner.flow.extends_.agrees other (hLoops.known_three hOther), hLoops.exit.entering]
  exact hLoops.opens.entering_eq hLoops.test hOther

theorem after_mem : after ∈ plan₄.frontier := by
  have hNe : after ≠ opened.draft.block := by
    rw [hLoops.block]
    exact hLoops.after_ne
  refine (hLoops.inner.flow.frontier after).mpr (.inr ⟨(hLoops.exit.frontier after).mpr
    ⟨hLoops.opens.mem_frontier hLoops.test (.inl rfl) hNe, ?_⟩, ?_⟩)
  · exact (hLoops.opens.exit_ne hLoops.test (.inl rfl) hNe).symm
  · rw [hLoops.exit.block]
    exact hLoops.after_ne_inside

theorem after_ne_exit : after ≠ four.draft.block := by
  rcases hLoops.inner.flow.arrives with hEq | hLarge
  · rw [hEq, hLoops.exit.block]
    exact hLoops.after_ne_inside
  · exact Id.ne_of_index_lt (Nat.lt_of_lt_of_le (hLoops.known_three (.inl rfl)) hLarge)

theorem empty_three {other : BlockId} (hOther : other ∈ ({after, inside, head} : Set BlockId))
    (hNe : other ≠ head) : three.draft.function.bodyAt other = [] := by
  have hNe' : other ≠ opened.draft.block := hLoops.block ▸ hNe
  rw [hLoops.exit.extends_.kept other
    (Nat.lt_of_lt_of_le (hLoops.known hOther) hLoops.test.flow.extends_.grows.blocks)
    (hLoops.opens.exit_ne hLoops.test hOther hNe').symm]
  exact hLoops.opens.bodyAt_eq_nil hLoops.test hOther hNe'

/-- The block behind the loop is still empty when the loop is closed. -/
theorem empty_after : four.draft.function.bodyAt after = [] := by
  rw [hLoops.inner.flow.extends_.kept after (hLoops.known_three (.inl rfl))
    (hLoops.exit.block.symm ▸ hLoops.after_ne_inside)]
  exact hLoops.empty_three (.inl rfl) hLoops.after_ne

/-- No phi was added to the block where the loop's test starts. -/
theorem head_phis : ∀ other ∈ four.draft.function.bodyAt head, other.isPhi = false := by
  have hOpened : ∀ other ∈ opened.draft.function.bodyAt opened.draft.block, other.isPhi = false := by
    rw [hLoops.block, hLoops.opens.empty head (.inr (.inr rfl))]
    exact fun _ hMem => by cases hMem
  have hOne := hLoops.test.flow.extends_.phis hOpened
  rw [hLoops.block] at hOne
  have hThree : ∀ other ∈ three.draft.function.bodyAt head, other.isPhi = false := by
    by_cases hEq : head = one.draft.block
    · rw [hEq] at hOne ⊢
      exact hLoops.exit.extends_.phis hOne
    · have hKnown := Nat.lt_of_lt_of_le (hLoops.known (.inr (.inr rfl)))
        hLoops.test.flow.extends_.grows.blocks
      rw [hLoops.exit.extends_.kept head hKnown hEq]
      exact hOne
  rw [hLoops.inner.flow.extends_.kept head (hLoops.known_three (.inr (.inr rfl))) ?_]
  · exact hThree
  · rw [hLoops.exit.block]
    exact hLoops.inside_ne.symm

include h

theorem ne_zero {other : BlockId} (hOther : other ∈ ({after, inside, head} : Set BlockId)) :
    other ≠ ⟨0⟩ := by
  rintro rfl
  exact Nat.not_le.mpr h.draft.size_pos (hLoops.opens.new _ hOther)

theorem back_target : four.Target plan₄ head := by
  refine ⟨?_, ?_, hLoops.head_phis, ?_⟩
  · exact Nat.lt_of_lt_of_le (hLoops.known_three (.inr (.inr rfl)))
      hLoops.inner.flow.extends_.grows.blocks
  · exact (Id.ne_of_index_lt (Nat.lt_of_lt_of_le h.draft.size_pos
      (hLoops.opens.new head (.inr (.inr rfl))))).symm
  · intro register hRegister
    rw [hLoops.entering (.inr (.inr rfl))] at hRegister
    refine hLoops.inner.flow.carries register (.inl ?_)
    rw [hLoops.exit.block, hLoops.exit.entering, hLoops.opens.entering_eq hLoops.test (.inr (.inl rfl))]
    exact hRegister

theorem moves {plan₅ : Plan} {five : Body} (hLeaves : Body.Leaves context plan₄ four after plan₅ five) :
    Moves context plan body plan₅ five := by
  have hHere := h.draft.block_lt
  have hBlocks : body.draft.function.blocks.size ≤ one.draft.function.blocks.size :=
    Nat.le_trans hLoops.opens.extends_.grows.blocks hLoops.test.flow.extends_.grows.blocks
  have hOpened : body.draft.function.blocks.size ≤ opened.draft.block.index := by
    rw [hLoops.block]
    exact hLoops.opens.new head (.inr (.inr rfl))
  have hOne : body.draft.function.blocks.size ≤ one.draft.block.index := by
    rcases hLoops.test.flow.arrives with hEq | hLarge
    · rw [hEq]
      exact hOpened
    · exact Nat.le_trans hLoops.opens.extends_.grows.blocks hLarge
  have hThree : body.draft.function.blocks.size ≤ three.draft.block.index := by
    rw [hLoops.exit.block]
    exact hLoops.opens.new inside (.inr (.inl rfl))
  have hFour : body.draft.function.blocks.size ≤ four.draft.block.index := by
    rcases hLoops.inner.flow.arrives with hEq | hLarge
    · rw [hEq]
      exact hThree
    · rw [hLoops.exit.size] at hLarge
      exact Nat.le_trans hBlocks hLarge
  have hExtends := (((hLoops.opens.extends_.trans hLoops.test.flow.extends_ hHere (.inr hOpened)).trans
    hLoops.exit.extends_ hHere (.inr hOne)).trans hLoops.inner.flow.extends_ hHere (.inr hThree)).trans
    hLeaves.extends_ hHere (.inr hFour)
  have hOldNe : ∀ {id other : BlockId}, id ∈ plan.frontier →
      body.draft.function.blocks.size ≤ other.index → id ≠ other := fun hOld hNew =>
    Id.ne_of_index_lt (Nat.lt_of_lt_of_le (h.draft.staged.known _ hOld) hNew)
  refine ⟨hLeaves.ready, ⟨hExtends, ?_, ?_, ?_⟩, ?_, ?_⟩
  · rw [hLeaves.block]
    exact .inr (hLoops.opens.new after (.inl rfl))
  · intro id
    rw [hLeaves.frontier, hLoops.inner.flow.frontier, hLoops.exit.frontier, hLoops.test.flow.frontier,
      hLoops.opens.frontier, hLeaves.block, hLoops.exit.block, hLoops.block]
    constructor
    · rintro ⟨hEq | ⟨⟨hEq | ⟨(hEq | hEq | hEq) | hOld, hNe₁⟩, hNe₂⟩, hNe₃⟩, hNe₄⟩
      · exact absurd hEq hNe₄
      · exact absurd hEq hNe₂
      · exact .inl hEq
      · exact absurd hEq hNe₃
      · exact absurd hEq hNe₁
      · exact .inr hOld
    · rintro (rfl | hOld)
      · refine ⟨.inr ⟨⟨.inr ⟨.inl (.inl rfl), hLoops.after_ne⟩, ?_⟩, hLoops.after_ne_inside⟩,
          hLoops.after_ne_exit⟩
        refine (hLoops.opens.exit_ne hLoops.test (.inl rfl) ?_).symm
        rw [hLoops.block]
        exact hLoops.after_ne
      · exact ⟨.inr ⟨⟨.inr ⟨.inr hOld, hOldNe hOld.1 (hLoops.opens.new head (.inr (.inr rfl)))⟩,
          hOldNe hOld.1 hOne⟩, hOldNe hOld.1 (hLoops.opens.new inside (.inr (.inl rfl)))⟩,
          hOldNe hOld.1 hFour⟩
  · intro id hId
    refine .inl ?_
    rw [hLeaves.block, hLeaves.entering, hLoops.entering (.inl rfl)]
    exact hId
  · intro name slot hSlot
    rw [hLeaves.scope]
    refine hLoops.inner.scope name slot ?_
    rw [hLoops.exit.scope]
    refine hLoops.test.scope name slot ?_
    rw [hLoops.opens.scope]
    exact hSlot
  · rw [hLeaves.diagnostics]
    refine List.IsPrefix.trans ?_ hLoops.inner.diagnostics
    rw [hLoops.exit.diagnostics, ← hLoops.opens.diagnostics]
    exact hLoops.test.diagnostics

end Body.Loops

/-- What the lowering of a loop goes through. -/
theorem repeated_loops (h : body.Ready context plan) {condition : Lower (Option Operand)}
    {inner : Lower Unit}
    (hCondition : ∀ plan body, body.Ready context plan → Leads context plan body condition Valued)
    (hInner : ∀ plan body, body.Ready context plan → Leads context plan body inner fun _ _ _ => True) :
    let inside := (body.newBlock "cond").next
    let after := ((body.newBlock "cond").newBlock "loop").next
    let tested := condition body.openLoop
    let left := leaveTest inside after tested.1 tested.2
    ∃ plan₁ plan₂ plan₃ plan₄, Body.Loops context plan body body.next inside after plan₁ plan₂ plan₃ plan₄
      body.openLoop tested.2 left.2 (inner left.2).2 ∧ Valued plan₂ tested.2 tested.1 := by
  intro inside after tested left
  obtain ⟨plan₁, hOpens⟩ := openLoop_opens h
  obtain ⟨plan₂, hTest, hValue⟩ := hCondition plan₁ _ hOpens.ready
  have hSize := Body.size_newBlock body "cond"
  have hSize' := Body.size_newBlock (body.newBlock "cond") "loop"
  have hInside : inside ≠ body.next :=
    (Body.next_ne (Nat.lt_of_lt_of_eq (Nat.lt_succ_self _) hSize.symm)).symm
  have hAfterInside : after ≠ inside :=
    (Body.next_ne (Nat.lt_of_lt_of_eq (Nat.lt_succ_self _) hSize'.symm)).symm
  have hAfter : after ≠ body.next := by
    refine (Body.next_ne ?_).symm
    rw [hSize', hSize]
    exact Nat.lt_succ_of_lt (Nat.lt_succ_self _)
  obtain ⟨plan₃, hExit⟩ := leaveTest_leaves hTest.ready hValue
    (hOpens.target rfl h hTest (.inr (.inl rfl)) hInside) (hOpens.target rfl h hTest (.inl rfl) hAfter)
    (hOpens.mem_frontier hTest (.inr (.inl rfl)) hInside)
    (hOpens.exit_ne hTest (.inr (.inl rfl)) hInside).symm (hOpens.exit_ne hTest (.inl rfl) hAfter).symm
  obtain ⟨plan₄, hMoves, _⟩ := hInner plan₃ _ hExit.ready
  exact ⟨plan₁, plan₂, plan₃, plan₄,
    ⟨hOpens, rfl, hTest, hExit, hMoves, hInside, hAfter, hAfterInside⟩, hValue⟩

theorem repeated_leads (h : body.Ready context plan) {condition : Lower (Option Operand)}
    {inner : Lower Unit}
    (hCondition : ∀ plan body, body.Ready context plan → Leads context plan body condition Valued)
    (hInner : ∀ plan body, body.Ready context plan → Leads context plan body inner fun _ _ _ => True) :
    Leads context plan body (repeated condition inner) Valued := by
  obtain ⟨_, _, _, _, hLoops, _⟩ := repeated_loops h hCondition hInner
  have hLeaves := jump_leaves hLoops.inner.ready (hLoops.back_target h) hLoops.after_mem
    hLoops.after_ne_exit
  exact ⟨_, hLoops.moves h hLeaves, fun _ hValue => by cases hValue⟩

end Slate.Lowering
