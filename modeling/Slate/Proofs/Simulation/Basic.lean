import Slate.Proofs.Lowering.Expression
import Slate.Proofs.Machine.Frame
import Slate.Proofs.Machine.Run

/-! # Simulation

A frame of a finished function stands where lowering stood at some moment if it has executed, in the block that
was current then, just the instructions that were there. An action of lowering simulates an evaluation
if every frame that stands where the action starts follows the evaluation to where the action ends.
-/

namespace Slate
set_option autoImplicit false

namespace Frame

/-- Nothing is lost of the first `n` registers. -/
structure Keeps (frame : Frame) (n : Nat) (next : Frame) : Prop where
  destination : next.destination = frame.destination
  holds : ∀ id value, id.index < n → frame.Holds id value → next.Holds id value

theorem Keeps.refl (frame : Frame) (n : Nat) : frame.Keeps n frame := ⟨rfl, fun _ _ _ h => h⟩

theorem Keeps.trans {frame one two : Frame} {m n : Nat} (h : frame.Keeps m one) (h' : one.Keeps n two)
    (hLe : m ≤ n) : frame.Keeps m two :=
  ⟨h'.destination.trans h.destination, fun id value hId hHolds =>
    h'.holds id value (Nat.lt_of_lt_of_le hId hLe) (h.holds id value hId hHolds)⟩

theorem Keeps.mono {frame next : Frame} {m n : Nat} (h : frame.Keeps n next) (hLe : m ≤ n) :
    frame.Keeps m next :=
  ⟨h.destination, fun id value hId => h.holds id value (Nat.lt_of_lt_of_le hId hLe)⟩

/-- An operand of a function stands for a value of its type. -/
def Reads (frame : Frame) (f : Function) (operand : Operand) (value : Value) : Prop :=
  frame.read operand = .ok value ∧ f.operandType? operand = some value.ty

def Denotes (frame : Frame) (f : Function) (operand : Operand) (word : Word) : Prop :=
  ∃ value, frame.Reads f operand value ∧ value.toWord = word

theorem denotes_const (frame : Frame) (f : Function) (value : Value) :
    frame.Denotes f (.const value) value.toWord :=
  ⟨value, ⟨rfl, rfl⟩, rfl⟩

theorem read_past (frame : Frame) (rest : List Instruction) (operand : Operand) :
    (frame.past rest).read operand = frame.read operand := by
  cases operand <;> rfl

theorem read_register_iff {frame : Frame} {id : RegisterId} {value : Value} :
    frame.read (.register id) = .ok value ↔ frame.Holds id value := by
  constructor
  · intro h
    simp only [read] at h
    split at h
    · cases h
    · cases h
    · rename_i found hFound
      cases h
      exact hFound
  · exact frame.read_of_holds

theorem Denotes.readWord {frame : Frame} {f : Function} {operand : Operand} {word : Word}
    (h : frame.Denotes f operand word) (rest : List Instruction) :
    (frame.past rest).readWord operand = .ok word := by
  obtain ⟨value, hRead, rfl⟩ := h
  rw [Frame.readWord, read_past, hRead.1]
  rfl

theorem Reads.keeps {frame next : Frame} {f g : Function} {operand : Operand} {value : Value}
    (h : frame.Reads f operand value) (hKeeps : frame.Keeps f.registers.size next)
    (hGrows : f.Grows g) : next.Reads g operand value := by
  refine ⟨?_, hGrows.operandType? h.2⟩
  cases operand with
  | const found => exact h.1
  | register id =>
    rw [read_register_iff]
    exact hKeeps.holds id value (Table.lt_of_get? h.2) (read_register_iff.mp h.1)

theorem Denotes.keeps {frame next : Frame} {f g : Function} {operand : Operand} {word : Word}
    (h : frame.Denotes f operand word) (hKeeps : frame.Keeps f.registers.size next)
    (hGrows : f.Grows g) : next.Denotes g operand word := by
  obtain ⟨value, hRead, hWord⟩ := h
  exact ⟨value, hRead.keeps hKeeps hGrows, hWord⟩

/-- A value of lowering stands for a value of evaluation. -/
def Yields (frame : Frame) (f : Function) : Option Operand → Option Word → Prop
  | some operand, some word => frame.Denotes f operand word
  | none, none => True
  | _, _ => False

theorem Yields.keeps {frame next : Frame} {f g : Function} {value : Option Operand}
    {word : Option Word} (h : frame.Yields f value word) (hKeeps : frame.Keeps f.registers.size next)
    (hGrows : f.Grows g) : next.Yields g value word := by
  match value, word, h with
  | none, none, _ => trivial
  | some operand, some word, h => exact Denotes.keeps h hKeeps hGrows

end Frame

open Lowering Evaluation Machine

/-- A finished function and what it runs in. -/
structure Activation where
  module : Module
  limit : Nat
  /-- How long a run has to last if evaluation is out of fuel. -/
  fuel : Nat
  callers : Callers
  function : Function
  /-- The slots of all variables. -/
  scope : NameTable SlotId

namespace Activation

/-- Slots belong to one variable each, and code stands where it should. -/
structure Fit (a : Activation) : Prop where
  framed : a.function.Framed
  slots : ∀ name slot, a.scope.find? name = some slot → slot.index < a.function.slots.size
  distinct : ∀ name other slot, a.scope.find? name = some slot → a.scope.find? other = some slot →
    name = other

/-- Lowering has come to this body, without a diagnostic so far, on its way to the finished function. -/
structure Stage (a : Activation) (body : Body) : Prop where
  grows : body.draft.function.Grows a.function
  scope : ∀ name slot, body.scope.find? name = some slot → a.scope.find? name = some slot
  clean : body.diagnostics = []

structure Stands (a : Activation) (body : Body) (store : Store) (frame : Frame) : Prop where
  function : frame.function = a.function
  block : frame.block = body.draft.block
  rest : frame.rest = (a.function.bodyAt body.draft.block).drop
    (body.draft.function.bodyAt body.draft.block).length
  registers : frame.registers.size = a.function.registers.size
  slots : frame.slots.size = a.function.slots.size
  env : ∀ name slot, a.scope.find? name = some slot →
    frame.slots.get? slot = some (store.env name)

/-- The run of a frame with what was written so far. -/
def running (a : Activation) (frame : Frame) (store : Store) : Progress Sink :=
  .running frame a.callers { written := store.written }

/-- The run is at a frame that stands where a body does. -/
def Reaches (a : Activation) (body : Body) (frame : Frame) (n : Nat) (post : Frame → Prop)
    (store : Store) (p : Progress Sink) : Prop :=
  ∃ next, p = a.running next store ∧ a.Stands body store next ∧ frame.Keeps n next ∧ post next

variable {a : Activation} {context : Context} {plan plan' : Plan} {body body' : Body}

theorem Stage.back (h : a.Stage body') (hMoves : Body.Moves context plan body plan' body') :
    a.Stage body where
  grows := hMoves.flow.extends_.grows.trans h.grows
  scope name slot hSlot := h.scope name slot (hMoves.scope name slot hSlot)
  clean := by
    have hPrefix := hMoves.diagnostics
    rw [h.clean] at hPrefix
    exact List.prefix_nil.mp hPrefix

/-- Only the current block and what is in it matter for where a frame stands. -/
theorem Stands.congr {store : Store} {frame : Frame} (h : a.Stands body store frame)
    (hBlock : body'.draft.block = body.draft.block)
    (hBody : body'.draft.function.bodyAt body.draft.block =
      body.draft.function.bodyAt body.draft.block) : a.Stands body' store frame :=
  { h with
    block := hBlock ▸ h.block
    rest := by
      rw [hBlock, hBody]
      exact h.rest }

end Activation

open Activation

/-- An action of lowering leads from one body to another, and frames follow an evaluation there. -/
def Simulates {α β : Type} (a : Activation) (context : Context) (plan : Plan) (body : Body)
    (pre : Frame → Prop) (action : Lower α) (evaluation : Eval β) (lead : Plan → Body → α → Prop)
    (post : Body → α → β → Frame → Prop) : Prop :=
  Leads context plan body action lead ∧
    (a.Stage (action body).2 → ∀ frame store, a.Stands body store frame → pre frame →
      Follows a.module a.limit a.fuel (a.running frame store)
        (fun value => a.Reaches (action body).2 frame body.draft.function.registers.size
          (post (action body).2 (action body).1 value)) (evaluation store))

/-- A value that can be used, and that is there as the form of its expression says. -/
def ValuedAs (valued : Bool) (plan : Plan) (body : Body) (value : Option Operand) : Prop :=
  Valued plan body value ∧ (body.diagnostics = [] → value.isSome = valued)

/-- The value of lowering stands for the result of evaluation. -/
def Yielding (body : Body) (value : Option Operand) (result : Option Word) (frame : Frame) : Prop :=
  frame.Yields body.draft.function value result

namespace Simulates

variable {α β γ δ : Type} {a : Activation} {context : Context} {plan : Plan} {body : Body}
  {pre : Frame → Prop} {action : Lower α} {evaluation : Eval β} {lead : Plan → Body → α → Prop}
  {post : Body → α → β → Frame → Prop}

/-- Only what the action does at this body matters. -/
theorem congr (h : Simulates a context plan body pre action evaluation lead post) {action' : Lower α}
    (hEq : action' body = action body) :
    Simulates a context plan body pre action' evaluation lead post := by
  unfold Simulates Leads
  rw [hEq]
  exact h

theorem post_mono (h : Simulates a context plan body pre action evaluation lead post)
    {lead' : Plan → Body → α → Prop} {post' : Body → α → β → Frame → Prop}
    (hLead : ∀ plan body value, lead plan body value → lead' plan body value)
    (hPost : ∀ body value result frame, post body value result frame →
      post' body value result frame) :
    Simulates a context plan body pre action evaluation lead' post' := by
  obtain ⟨⟨plan', hMoves, hLead'⟩, hFollows⟩ := h
  refine ⟨⟨plan', hMoves, hLead _ _ _ hLead'⟩, fun hStage frame store hStands hPre => ?_⟩
  refine (hFollows hStage frame store hStands hPre).mono ?_
  rintro value after q ⟨next, rfl, hNext, hKeeps, hValue⟩
  exact ⟨next, rfl, hNext, hKeeps, hPost _ _ _ _ hValue⟩

/-- What is not reached can be taken for anything. -/
theorem vacuous {pre' : Frame → Prop} {evaluation' : Eval δ} {post' : Body → α → δ → Frame → Prop}
    (h : Simulates a context plan body pre' action evaluation' lead post') (hNo : ∀ frame, ¬ pre frame) :
    Simulates a context plan body pre action evaluation lead post :=
  ⟨h.1, fun _ frame _ _ hPre => absurd hPre (hNo frame)⟩

/-- An action that executes nothing. -/
theorem pure (h : body.Ready context plan) {value : α} {result : β} (hLead : lead plan body value)
    (hPost : ∀ frame, pre frame → post body value result frame) :
    Simulates a context plan body pre (pure value) (pure result) lead post := by
  refine ⟨.pure h hLead, fun _ frame store hStands hPre => ?_⟩
  exact .now ⟨frame, rfl, hStands, .refl _ _, hPost frame hPre⟩

theorem bind [Nonempty β] (h : body.Ready context plan)
    (hFirst : Simulates a context plan body pre action evaluation lead post) {next : α → Lower γ}
    {evaluation' : β → Eval δ} {lead' : Plan → Body → γ → Prop}
    {post' : Body → γ → δ → Frame → Prop}
    (hNext : ∀ plan₁ body₁ value result, Body.Moves context plan body plan₁ body₁ →
      lead plan₁ body₁ value →
      Simulates a context plan₁ body₁ (fun next => ∃ frame, pre frame ∧
        frame.Keeps body.draft.function.registers.size next ∧ post body₁ value result next)
        (next value) (evaluation' result) lead' post') :
    Simulates a context plan body pre (action >>= next) (evaluation >>= evaluation') lead' post' := by
  obtain ⟨hLeads, hFollows⟩ := hFirst
  have hLeads' := hLeads
  obtain ⟨plan₁, hMoves, hLead⟩ := hLeads'
  obtain ⟨someResult⟩ := ‹Nonempty β›
  refine ⟨.bind h hLeads fun plan' body' value hMoves hLead =>
    (hNext plan' body' value someResult hMoves hLead).1, ?_⟩
  intro hStage frame store hStands hPre
  obtain ⟨plan₂, hMoves', -⟩ := (hNext plan₁ _ _ someResult hMoves hLead).1
  refine (hFollows (hStage.back hMoves') frame store hStands hPre).bind ?_
  rintro result after q ⟨middle, rfl, hMiddle, hKeeps, hPost⟩
  refine ((hNext plan₁ _ _ result hMoves hLead).2 hStage middle after hMiddle
    ⟨frame, hPre, hKeeps, hPost⟩).mono ?_
  rintro value final q ⟨last, rfl, hLast, hKeeps', hPost'⟩
  exact ⟨last, rfl, hLast, hKeeps.trans hKeeps' hMoves.flow.extends_.grows.registers.size_le, hPost'⟩

/-- First an action that evaluation does not see. -/
theorem step (h : body.Ready context plan) {post : Body → α → Unit → Frame → Prop}
    (hFirst : Simulates a context plan body pre action (Pure.pure ()) lead post) {next : α → Lower γ}
    {evaluation' : Eval δ} {lead' : Plan → Body → γ → Prop} {post' : Body → γ → δ → Frame → Prop}
    (hNext : ∀ plan₁ body₁ value, Body.Moves context plan body plan₁ body₁ →
      lead plan₁ body₁ value →
      Simulates a context plan₁ body₁ (fun next => ∃ frame, pre frame ∧
        frame.Keeps body.draft.function.registers.size next ∧ post body₁ value () next)
        (next value) evaluation' lead' post') :
    Simulates a context plan body pre (action >>= next) evaluation' lead' post' :=
  hFirst.bind h fun plan₁ body₁ value _ hMoves hLead => hNext plan₁ body₁ value hMoves hLead

/-- Where something is reported there is nothing to follow. -/
theorem reported {action : Lower (Option Operand)} {post : Body → Option Operand → β → Frame → Prop}
    (hLeads : Leads context plan body action Valued) (hReported : (action body).2.diagnostics ≠ [])
    (valued : Bool) : Simulates a context plan body pre action evaluation (ValuedAs valued) post := by
  obtain ⟨plan', hMoves, hValued⟩ := hLeads
  exact ⟨⟨plan', hMoves, hValued, fun hClean => absurd hClean hReported⟩,
    fun hStage => absurd hStage.clean hReported⟩

end Simulates

theorem diagnostics_report_ne_nil (complaint : Complaint) (span : Span) (body : Body) :
    (report complaint span body).2.diagnostics ≠ [] :=
  List.append_ne_nil_of_right_ne_nil _ (List.cons_ne_nil _ _)

end Slate
