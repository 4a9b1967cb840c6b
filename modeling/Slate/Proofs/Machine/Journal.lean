import Slate.Proofs.Building.Regular
import Slate.Proofs.Machine.Bounded

/-! # What frames run

A journal goes along with a run. For every frame, live or ended, it holds the instructions that the frame has
run so far. Where the functions of a module reserve their slots up front, every frame does so before
anything else, each slot once.
-/

namespace Slate
set_option autoImplicit false

/-- The slots of a function are reserved at the front of its first block, in order, and nowhere else; and
control comes to that block only by entering the function. -/
structure Function.ReservesFirst (f : Function) : Prop where
  leading : ∃ rest, f.codeAt ⟨0⟩ = f.slots.ids.map Instruction.alloca ++ rest ∧
    ∀ instruction ∈ rest, instruction.isAlloca = false
  elsewhere : ∀ id, id ≠ ⟨0⟩ → ∀ instruction ∈ f.codeAt id, instruction.isAlloca = false
  untargeted : ∀ instruction ∈ f.code, ⟨0⟩ ∉ instruction.targets

/-! ## Journals -/

/-- The instructions that a frame has run, in order. -/
structure FrameLog where
  function : Function
  ran : List Instruction := []

def FrameLog.push (log : FrameLog) (instruction : Instruction) : FrameLog :=
  { log with ran := log.ran ++ [instruction] }

structure Journal where
  /-- The frames on the stack, innermost first. -/
  live : List FrameLog
  /-- The frames that have returned. -/
  ended : List FrameLog := []

namespace Journal

variable {σ : Type}

def begin : Progress σ → Journal
  | .running frame _ _ => { live := [{ function := frame.function }] }
  | .halted .. => { live := [] }

/-- A step runs the next instruction of the innermost frame, which may have made a frame or ended. -/
def record (journal : Journal) (before after : Progress σ) : Journal :=
  match before, journal.live with
  | .running frame callers _, current :: others =>
    match frame.rest, after with
    | [], _ => journal
    | instruction :: _, .running next callers' _ =>
      if callers.depth < callers'.depth then
        { journal with live := { function := next.function } :: current.push instruction :: others }
      else if callers'.depth < callers.depth then
        { live := others, ended := journal.ended ++ [current.push instruction] }
      else { journal with live := current.push instruction :: others }
    | instruction :: _, .halted (.ok _) _ =>
      { live := others, ended := journal.ended ++ [current.push instruction] }
    | instruction :: _, .halted (.error _) _ =>
      { journal with live := current.push instruction :: others }
  | _, _ => journal

end Journal

namespace Machine

variable {σ : Type} (host : Host σ) (module : Module) (limit : Nat)

/-- Up to `fuel` steps, with the journal. -/
def logged : Nat → Progress σ × Journal → Progress σ × Journal
  | 0, state => state
  | fuel + 1, (p, journal) =>
    logged fuel (advance host module limit 1 p, journal.record p (advance host module limit 1 p))

theorem logged_fst (fuel : Nat) (p : Progress σ) (journal : Journal) :
    (logged host module limit fuel (p, journal)).1 = advance host module limit fuel p := by
  induction fuel generalizing p journal with
  | zero => exact (advance_zero host module limit p).symm
  | succ fuel ih => rw [logged, ih, Nat.add_comm, advance_add]

end Machine

namespace Machine

variable {σ : Type} (host : Host σ) (module : Module) (limit fuel : Nat) (name : String)
  (arguments : List Word) (state : σ)

def callLogged : Progress σ × Journal :=
  logged host module limit fuel
    (start host module name arguments state, .begin (start host module name arguments state))

theorem callLogged_fst : (callLogged host module limit fuel name arguments state).1 =
    call host module limit fuel name arguments state :=
  logged_fst _ _ _ _ _ _

end Machine

/-! ## Frames that reserve first -/

/-- As far as the frame has come, its first instructions were the reservations of all slots, in order, and
no other was one. -/
structure FrameLog.Begun (module : Module) (log : FrameLog) : Prop where
  known : log.function ∈ module.functions.values
  reserves : ∃ n front, log.ran = (log.function.slots.ids.take n).map Instruction.alloca ++ front ∧
    (front ≠ [] → log.function.slots.size ≤ n) ∧ ∀ instruction ∈ front, instruction.isAlloca = false

/-- The first instructions of the frame were the reservations of all slots, in order, and no other was one. -/
structure FrameLog.Reserved (module : Module) (log : FrameLog) : Prop where
  known : log.function ∈ module.functions.values
  reserves : ∃ front, log.ran = log.function.slots.ids.map Instruction.alloca ++ front ∧
    ∀ instruction ∈ front, instruction.isAlloca = false

/-- What a frame has run, and what is left of its block, split behind the last reservation. -/
structure Frame.Logged (module : Module) (frame : Frame) (log : FrameLog) : Prop where
  inside : frame.Inside module
  function : log.function = frame.function
  reserves : ∃ n front rest, log.ran = (frame.function.slots.ids.take n).map Instruction.alloca ++ front ∧
    frame.rest = (frame.function.slots.ids.drop n).map Instruction.alloca ++ rest ∧
    (front ≠ [] → frame.function.slots.size ≤ n) ∧
    (∀ instruction ∈ front, instruction.isAlloca = false) ∧ ∀ instruction ∈ rest, instruction.isAlloca = false

namespace Frame

variable {module : Module} {frame next : Frame} {log : FrameLog} {instruction : Instruction}
  {rest : List Instruction}

theorem Inside.codeAt (h : frame.Inside module) : frame.rest <:+ frame.function.codeAt frame.block := by
  obtain ⟨block, hBlock, hRest⟩ := h.block
  rwa [frame.function.codeAt_of_get? hBlock]

theorem Inside.mem_code (h : frame.Inside module) (hRest : frame.rest = instruction :: rest) :
    instruction ∈ frame.function.code := by
  apply frame.function.mem_code_of_mem_codeAt
  apply h.codeAt.subset
  rw [hRest]
  exact List.mem_cons_self

theorem Inside.size_ne_zero (h : frame.Inside module) : frame.function.blocks.size ≠ 0 := by
  obtain ⟨block, hBlock, -⟩ := h.block
  exact Nat.ne_of_gt (Nat.zero_lt_of_lt (Table.lt_of_get? hBlock))

namespace Logged

theorem begun (h : frame.Logged module log) : log.Begun module := by
  obtain ⟨n, front, rest, hRan, -, hAll, hFront, -⟩ := h.reserves
  constructor
  · rw [h.function]
    exact h.inside.function
  · rw [h.function]
    exact ⟨n, front, hRan, hAll, hFront⟩

theorem samePlace (h : frame.Logged module log) (hSame : frame.SamePlace next) : next.Logged module log := by
  constructor
  · exact hSame.inside h.inside
  · rw [hSame.function, h.function]
  · rw [hSame.function, hSame.rest]
    exact h.reserves

/-- The next instruction is the next reservation, or all are done. -/
theorem split (h : frame.Logged module log) (hRest : frame.rest = instruction :: rest) :
    (∃ n, n < frame.function.slots.size ∧ instruction = .alloca ⟨n⟩ ∧
      log.ran = (frame.function.slots.ids.take n).map Instruction.alloca ∧
      ∃ rest', rest = (frame.function.slots.ids.drop (n + 1)).map Instruction.alloca ++ rest' ∧
        ∀ other ∈ rest', other.isAlloca = false) ∨
    instruction.isAlloca = false ∧ (∀ other ∈ rest, other.isAlloca = false) ∧
      ∃ front, log.ran = frame.function.slots.ids.map Instruction.alloca ++ front ∧
        ∀ other ∈ front, other.isAlloca = false := by
  obtain ⟨n, front, rest', hRan, hLeft, hAll, hFront, hNone⟩ := h.reserves
  have hLength := frame.function.slots.length_ids
  rcases Nat.lt_or_ge n frame.function.slots.size with hn | hn
  · have hEmpty : front = [] := by
      by_contra hFront
      exact Nat.not_le.mpr hn (hAll hFront)
    have hDrop : frame.function.slots.ids.drop n = ⟨n⟩ :: frame.function.slots.ids.drop (n + 1) := by
      rw [List.drop_eq_getElem_cons (by omega)]
      simp [Table.ids]
    rw [hRest, hDrop] at hLeft
    cases hLeft
    rw [hEmpty, List.append_nil] at hRan
    exact .inl ⟨n, hn, rfl, hRan, rest', rfl, hNone⟩
  · rw [List.drop_of_length_le (by omega), hRest] at hLeft
    rw [List.take_of_length_le (by omega)] at hRan
    change instruction :: rest = rest' at hLeft
    subst hLeft
    rw [List.forall_mem_cons] at hNone
    exact .inr ⟨hNone.1, hNone.2, front, hRan, hFront⟩

theorem past (h : frame.Logged module log) (hRest : frame.rest = instruction :: rest) :
    (frame.past rest).Logged module (log.push instruction) := by
  have hLength := frame.function.slots.length_ids
  constructor
  · exact h.inside.past hRest
  · exact h.function
  · change ∃ n front rest', log.ran ++ [instruction] =
        (frame.function.slots.ids.take n).map Instruction.alloca ++ front ∧
      rest = (frame.function.slots.ids.drop n).map Instruction.alloca ++ rest' ∧
      (front ≠ [] → frame.function.slots.size ≤ n) ∧ _
    rcases h.split hRest with ⟨n, hn, rfl, hRan, rest', hLeft, hNone⟩ | ⟨hOther, hLeft, front, hRan, hFront⟩
    · refine ⟨n + 1, [], rest', ?_, hLeft, by simp, by simp, hNone⟩
      rw [hRan, List.take_add_one]
      simp [Table.ids, hn]
    · refine ⟨frame.function.slots.size, front ++ [instruction], rest, ?_, ?_, fun _ => Nat.le_refl _, ?_,
        hLeft⟩
      · rw [List.take_of_length_le (by omega), hRan, List.append_assoc]
      · rw [List.drop_of_length_le (by omega)]
        rfl
      · rw [List.forall_mem_append, List.forall_mem_singleton]
        exact ⟨hFront, hOther⟩

/-- A frame that runs anything but a reservation has all its slots. -/
theorem reserved (h : frame.Logged module log) (hRest : frame.rest = instruction :: rest)
    (hOther : instruction.isAlloca = false) : (log.push instruction).Reserved module := by
  constructor
  · exact (h.past hRest).begun.known
  · rcases h.split hRest with ⟨n, -, rfl, -⟩ | ⟨-, -, front, hRan, hFront⟩
    · cases hOther
    · refine ⟨front ++ [instruction], ?_, ?_⟩
      · rw [FrameLog.push, hRan, h.function, List.append_assoc]
      · rw [List.forall_mem_append, List.forall_mem_singleton]
        exact ⟨hFront, hOther⟩

/-- What is not the first block holds no reservation, and no instruction leads to the first one. -/
theorem enters (h : frame.Logged module log) (hRest : frame.rest = instruction :: rest)
    (hReserves : frame.function.ReservesFirst) {target : BlockId} (hTarget : target ∈ instruction.targets)
    (hEnters : (frame.past rest).Enters target next) : next.Logged module (log.push instruction) := by
  obtain ⟨hFunction, hBlock, block, hGet, hCode⟩ := hEnters
  have hFunction' : next.function = frame.function := hFunction
  have hGet' : frame.function.blocks.get? target = some block := hGet
  have hOther : instruction.isAlloca = false := by
    cases instruction with
    | alloca slot => cases hTarget
    | _ => rfl
  have hFirst : target ≠ ⟨0⟩ := by
    rintro rfl
    exact hReserves.untargeted _ (h.inside.mem_code hRest) hTarget
  constructor
  · constructor
    · rw [hFunction']
      exact h.inside.function
    · rw [hFunction', hBlock, hCode]
      exact ⟨block, hGet', List.suffix_refl _⟩
  · rw [hFunction']
    exact h.function
  · obtain ⟨front, hRan, hFront⟩ := (h.reserved hRest hOther).reserves
    have hLog : (log.push instruction).function = frame.function := h.function
    have hLength := frame.function.slots.length_ids
    have hNone := hReserves.elsewhere target hFirst
    rw [frame.function.codeAt_of_get? hGet'] at hNone
    rw [hLog] at hRan
    rw [hFunction', hCode]
    refine ⟨frame.function.slots.size, front, block.code, ?_, ?_, fun _ => Nat.le_refl _, hFront, hNone⟩
    · rw [List.take_of_length_le (by omega), hRan]
    · rw [List.drop_of_length_le (by omega)]
      rfl

end Logged

theorem Starts.size_ne_zero {f : Function} (h : frame.Starts f) : f.blocks.size ≠ 0 := by
  obtain ⟨-, -, block, hGet, -⟩ := h
  exact Nat.ne_of_gt (Table.lt_of_get? hGet)

theorem Starts.logged {f : Function} (h : frame.Starts f) (hMem : f ∈ module.functions.values)
    (hReserves : f.ReservesFirst) : frame.Logged module { function := frame.function } := by
  obtain ⟨hFunction, hBlock, block, hGet, hCode⟩ := h
  obtain ⟨rest, hLeading, hNone⟩ := hReserves.leading
  constructor
  · exact Starts.inside ⟨hFunction, hBlock, block, hGet, hCode⟩ hMem
  · rfl
  · rw [f.codeAt_of_get? hGet] at hLeading
    rw [hFunction, hCode, hLeading]
    exact ⟨0, [], rest, rfl, rfl, by simp, by simp, hNone⟩

end Frame

namespace Journal

variable {σ : Type} {host : Host σ} {module : Module} {limit : Nat}

/-- There is a log for every frame on the stack. -/
def Covers (journal : Journal) : Progress σ → Prop
  | .running frame callers _ =>
    journal.live.map FrameLog.function = (frame :: callers.frames).map Frame.function
  | .halted .. => True

/-- The live logs are those of the frames on the stack, and they are as far as these are. -/
def Fits (module : Module) (journal : Journal) : Progress σ → Prop
  | .running frame callers _ => (∀ log ∈ journal.ended, log.Reserved module) ∧
    List.Forall₂ (Frame.Logged module) (frame :: callers.frames) journal.live
  | .halted .. => (∀ log ∈ journal.ended, log.Reserved module) ∧
    ∀ log ∈ journal.live, log.Begun module

theorem begun_of_forall₂ {frames : List Frame} {logs : List FrameLog}
    (h : List.Forall₂ (Frame.Logged module) frames logs) : ∀ log ∈ logs, log.Begun module := by
  induction h with
  | nil => simp
  | cons hFirst _ ih =>
    rw [List.forall_mem_cons]
    exact ⟨hFirst.begun, ih⟩

namespace Fits

variable {journal : Journal} {p : Progress σ}

theorem ended (h : journal.Fits module p) : ∀ log ∈ journal.ended, log.Reserved module := by
  cases p with
  | running frame callers state => exact h.1
  | halted result state => exact h.1

theorem live (h : journal.Fits module p) : ∀ log ∈ journal.live, log.Begun module := by
  cases p with
  | running frame callers state => exact begun_of_forall₂ h.2
  | halted result state => exact h.2

theorem covers (h : journal.Fits module p) : journal.Covers p := by
  cases p with
  | running frame callers state =>
    obtain ⟨live, ended⟩ := journal
    obtain ⟨-, hLive⟩ := h
    change List.Forall₂ _ _ live at hLive
    change live.map FrameLog.function = _
    generalize frame :: callers.frames = frames at hLive ⊢
    induction hLive with
    | nil => rfl
    | cons hFirst _ ih => rw [List.map_cons, List.map_cons, ih, hFirst.function]
  | halted result state => exact trivial

end Fits

def FitsAfter (module : Module) (journal : Journal) (before after : Progress σ) : Prop :=
  (journal.record before after).Fits module after

section Steps

variable {frame next : Frame} {callers : Callers} {state after : σ} {instruction : Instruction}
  {rest : List Instruction} {current : FrameLog} {others ended : List FrameLog}
  (hRest : frame.rest = instruction :: rest)
  (hEnded : ∀ log ∈ ended, log.Reserved module)
  (hOthers : List.Forall₂ (Frame.Logged module) callers.frames others)
include hRest hEnded hOthers

theorem fits_resume (hNext : next.Logged module (current.push instruction)) :
    FitsAfter module ⟨current :: others, ended⟩ (.running frame callers state)
      (.running next callers after) := by
  simp only [FitsAfter, record, hRest, Nat.lt_irrefl, if_false]
  exact ⟨hEnded, .cons hNext hOthers⟩

theorem fits_error (hCurrent : frame.Logged module current) (stop : Stop) :
    FitsAfter module ⟨current :: others, ended⟩ (.running frame callers state)
      (.halted (.error stop) after) := by
  simp only [FitsAfter, record, hRest]
  refine ⟨hEnded, ?_⟩
  rw [List.forall_mem_cons]
  constructor
  · exact (hCurrent.past hRest).begun
  · exact begun_of_forall₂ hOthers

theorem fits_proceed (hCurrent : frame.Logged module current) {attempt : Step Frame}
    (hAttempt : attempt.Gives Stop.Inherent (frame.past rest).SamePlace) :
    FitsAfter module ⟨current :: others, ended⟩ (.running frame callers state)
      (Machine.proceed callers after attempt) := by
  cases attempt with
  | error stop => exact fits_error hRest hEnded hOthers hCurrent stop
  | ok next =>
    have hSame : (frame.past rest).SamePlace next := hAttempt
    exact fits_resume hRest hEnded hOthers ((hCurrent.past hRest).samePlace hSame)

theorem fits_enter (hCurrent : frame.Logged module current) {callee : Function}
    (hCallee : callee ∈ module.functions.values) (hReserves : callee.blocks.size ≠ 0 → callee.ReservesFirst)
    (arguments : List Word) (register : Option RegisterId) :
    FitsAfter module ⟨current :: others, ended⟩ (.running frame callers state)
      (Machine.enter limit (frame.past rest) callers callee arguments register after) := by
  rw [Machine.enter]
  split
  · exact fits_error hRest hEnded hOthers hCurrent _
  · have hGives := Frame.enter_gives callee arguments register
    cases hEnter : Frame.enter callee arguments register with
    | error stop => exact fits_error hRest hEnded hOthers hCurrent _
    | ok entered =>
      rw [hEnter] at hGives
      have hStarts : entered.Starts callee := hGives
      have hDepth : callers.depth < (callers.push (frame.past rest)).depth := Nat.lt_succ_self _
      simp only [FitsAfter, Machine.proceed, record, hRest, hDepth, if_true]
      refine ⟨hEnded, .cons (hStarts.logged hCallee ?_) (.cons (hCurrent.past hRest) hOthers)⟩
      exact hReserves hStarts.size_ne_zero

theorem fits_return (hCurrent : frame.Logged module current) (hOther : instruction.isAlloca = false)
    (value : Option Value) :
    FitsAfter module ⟨current :: others, ended⟩ (.running frame callers state)
      (Machine.act host limit frame.destination callers after (.ret value)) := by
  have hEnded' : ∀ log ∈ ended ++ [current.push instruction], log.Reserved module := by
    rw [List.forall_mem_append, List.forall_mem_singleton]
    exact ⟨hEnded, hCurrent.reserved hRest hOther⟩
  rw [Machine.act]
  cases hPop : callers.pop? with
  | none =>
    simp only [FitsAfter, record, hRest]
    exact ⟨hEnded', begun_of_forall₂ hOthers⟩
  | some popped =>
    obtain ⟨caller, callers'⟩ := popped
    have hGives := caller.receive_gives frame.destination value
    dsimp only
    cases hReceive : caller.receive frame.destination value with
    | error stop => exact fits_error hRest hEnded hOthers hCurrent _
    | ok next =>
      rw [hReceive] at hGives
      have hSame : caller.SamePlace next := hGives
      have hDepth := Machine.depth_of_pop? hPop
      have hDown : callers'.depth < callers.depth := by omega
      rw [Machine.frames_of_pop? hPop] at hOthers
      cases hOthers with
      | cons hCaller hRests =>
        simp only [FitsAfter, Machine.proceed, record, hRest, Nat.lt_asymm hDown, hDown, if_true, if_false]
        exact ⟨hEnded', .cons (hCaller.samePlace hSame) hRests⟩

end Steps
end Journal

namespace Machine

variable {σ : Type} {module : Module}

theorem isAlloca_of_execute_ret {frame : Frame} {instruction : Instruction} {value : Option Value}
    (h : execute module frame instruction = .ok (.ret value)) : instruction.isAlloca = false := by
  cases instruction with
  | alloca slot =>
    rw [execute] at h
    cases hWrite : frame.writeSlot slot 0 with
    | error stop =>
      rw [hWrite] at h
      cases h
    | ok next =>
      rw [hWrite] at h
      cases h
  | _ => rfl

section Runs

variable (hModule : ∀ f ∈ module.functions.values, f.blocks.size ≠ 0 → f.ReservesFirst) (host : Host σ)
  (limit : Nat)
include hModule

/-- The step lemma: a step keeps the journal in order. -/
theorem step_fits {frame : Frame} {callers : Callers} {state : σ} {journal : Journal}
    (h : journal.Fits module (.running frame callers state)) :
    journal.FitsAfter module (.running frame callers state) (step host module limit frame callers state) := by
  obtain ⟨live, ended⟩ := journal
  obtain ⟨hEnded, hLive⟩ := h
  cases hLive with
  | cons hCurrent hOthers =>
    cases hRest : frame.rest with
    | nil =>
      rw [step, hRest]
      simp only [Journal.FitsAfter, Journal.record, hRest]
      exact ⟨hEnded, Journal.begun_of_forall₂ (.cons hCurrent hOthers)⟩
    | cons instruction rest =>
      have hGives := execute_gives module (frame.past rest) instruction
      cases hAction : execute module (frame.past rest) instruction with
      | error stop =>
        rw [step_of_error _ _ _ _ hRest hAction]
        exact Journal.fits_error hRest hEnded hOthers hCurrent stop
      | ok action =>
        rw [hAction] at hGives
        rw [step_of_execute _ _ _ _ hRest hAction]
        cases action with
        | resume next =>
          apply Journal.fits_resume hRest hEnded hOthers
          rcases hGives with hSame | ⟨target, hTarget, hEnters⟩
          · exact (hCurrent.past hRest).samePlace hSame
          · apply hCurrent.enters hRest (hModule _ hCurrent.inside.function ?_) hTarget hEnters
            exact hCurrent.inside.size_ne_zero
        | call next callee arguments register =>
          obtain ⟨rfl, -, id, hId⟩ := hGives
          have hCallee : callee ∈ module.functions.values :=
            List.mem_map.mpr ⟨(id, callee), IdMap.mem_of_get? hId, rfl⟩
          exact Journal.fits_enter hRest hEnded hOthers hCurrent hCallee (hModule callee hCallee) _ _
        | host next symbol arguments register =>
          cases hGives
          rw [act]
          rcases host.call symbol arguments state with ⟨error | answer, after⟩
          · exact Journal.fits_error hRest hEnded hOthers hCurrent _
          · exact Journal.fits_proceed hRest hEnded hOthers hCurrent (Frame.receive_gives _ _ _)
        | ret value =>
          exact Journal.fits_return hRest hEnded hOthers hCurrent (isAlloca_of_execute_ret hAction) value

/-- The run lemma. -/
theorem logged_fits (fuel : Nat) {p : Progress σ} {journal : Journal} (h : journal.Fits module p) :
    (logged host module limit fuel (p, journal)).2.Fits module
      (logged host module limit fuel (p, journal)).1 := by
  induction fuel generalizing p journal with
  | zero => exact h
  | succ fuel ih =>
    rw [logged]
    apply ih
    cases p with
    | halted result state => exact h
    | running frame callers state =>
      rw [advance_one]
      exact step_fits hModule host limit h

theorem start_fits (name : String) (arguments : List Word) (state : σ) :
    (Journal.begin (start host module name arguments state)).Fits module
      (start host module name arguments state) := by
  cases hStart : start host module name arguments state with
  | halted result after => exact ⟨by simp [Journal.begin], by simp [Journal.begin]⟩
  | running frame callers after =>
    obtain ⟨f, hMem, hStarts, hNone⟩ := start_running hStart
    refine ⟨by simp [Journal.begin], ?_⟩
    rw [hNone]
    exact .cons (hStarts.logged hMem (hModule f hMem hStarts.size_ne_zero)) .nil

theorem callLogged_fits (fuel : Nat) (name : String) (arguments : List Word) (state : σ) :
    (callLogged host module limit fuel name arguments state).2.Fits module
      (callLogged host module limit fuel name arguments state).1 :=
  logged_fits hModule host limit fuel (start_fits hModule host name arguments state)

end Runs
end Machine
end Slate
