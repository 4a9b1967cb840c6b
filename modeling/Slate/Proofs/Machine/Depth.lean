import Slate.Proofs.Machine.Soundness

/-! # The limit on live frames

A limit decides nothing but where a run is cut off. Up to there the run goes step by step with the run
that has no limit, and it is cut off exactly where that run asks for more frames than the limit allows.
-/

namespace Slate
set_option autoImplicit false

/-! ## What one instruction can do -/

def Step.Gives {α : Type} (fails : Stop → Prop) (post : α → Prop) : Step α → Prop
  | .ok value => post value
  | .error stop => fails stop

namespace Step.Gives

variable {α β : Type} {fails : Stop → Prop} {post : α → Prop} {post' : β → Prop}

theorem bind {attempt : Step α} {next : α → Step β} (h : Gives fails post attempt)
    (hNext : ∀ value, post value → Gives fails post' (next value)) :
    Gives fails post' (attempt >>= next) := by
  cases attempt with
  | ok value => exact hNext value h
  | error stop => exact h

theorem mono {attempt : Step α} (h : Gives fails post attempt) {post' : α → Prop}
    (hPost : ∀ value, post value → post' value) : Gives fails post' attempt := by
  cases attempt with
  | ok value => exact hPost value h
  | error stop => exact h

theorem orFault (hFault : fails .fault) (found : Option α) :
    Gives fails (fun value => found = some value) (orFault found) := by
  cases found with
  | none => exact hFault
  | some value => exact rfl

end Step.Gives

/-- Reasons to stop other than a limit. -/
def Stop.Inherent (stop : Stop) : Prop := ∀ limit, stop ≠ .error (.callDepthExceeded limit)

theorem Stop.inherent_fault : Stop.fault.Inherent := by
  intro limit h
  cases h

namespace Frame

structure SamePlace (frame next : Frame) : Prop where
  function : next.function = frame.function
  block : next.block = frame.block
  rest : next.rest = frame.rest

theorem SamePlace.refl (frame : Frame) : frame.SamePlace frame := ⟨rfl, rfl, rfl⟩

variable (frame : Frame)

theorem read_gives (operand : Operand) :
    Step.Gives Stop.Inherent (fun _ => True) (frame.read operand) := by
  cases operand with
  | const value => exact trivial
  | register id =>
    rw [read]
    split
    · exact Stop.inherent_fault
    · intro limit h
      cases h
    · exact trivial

theorem readWord_gives (operand : Operand) :
    Step.Gives Stop.Inherent (fun _ => True) (frame.readWord operand) :=
  (frame.read_gives operand).bind fun _ _ => trivial

theorem readWords_gives (operands : List Operand) :
    Step.Gives Stop.Inherent (fun _ => True) (operands.mapM frame.readWord) := by
  induction operands with
  | nil => exact trivial
  | cons first rest ih =>
    rw [List.mapM_cons]
    exact (frame.readWord_gives first).bind fun _ _ => ih.bind fun _ _ => trivial

theorem write_gives (id : RegisterId) (value : Value) :
    Step.Gives Stop.Inherent frame.SamePlace (frame.write id value) := by
  rw [write]
  split
  · exact ⟨rfl, rfl, rfl⟩
  · exact Stop.inherent_fault

theorem writeSlot_gives (id : SlotId) (word : Word) :
    Step.Gives Stop.Inherent frame.SamePlace (frame.writeSlot id word) := by
  rw [writeSlot]
  split
  · exact ⟨rfl, rfl, rfl⟩
  · exact Stop.inherent_fault

theorem receive_gives (id : Option RegisterId) (value : Option Value) :
    Step.Gives Stop.Inherent frame.SamePlace (frame.receive id value) := by
  cases id with
  | none => exact .refl frame
  | some id =>
    cases value with
    | none => exact .refl frame
    | some value => exact frame.write_gives id value

structure Enters (frame : Frame) (target : BlockId) (next : Frame) : Prop where
  function : next.function = frame.function
  block : next.block = target
  code : ∃ block, frame.function.blocks.get? target = some block ∧ next.rest = block.code

theorem goto_gives (target : BlockId) :
    Step.Gives Stop.Inherent (frame.Enters target) (frame.goto target) := by
  refine (Step.Gives.orFault Stop.inherent_fault _).bind ?_
  intro block hBlock
  exact ⟨rfl, rfl, block, hBlock, rfl⟩

theorem foldlM_write_gives (pairs : List (RegisterId × Word)) :
    Step.Gives Stop.Inherent frame.SamePlace
      (pairs.foldlM (fun frame (id, argument) => frame.write id (.int argument)) frame) := by
  induction pairs generalizing frame with
  | nil => exact .refl frame
  | cons first rest ih =>
    rw [List.foldlM_cons]
    refine (frame.write_gives first.1 (.int first.2)).bind ?_
    intro next hNext
    apply (ih next).mono
    intro last hLast
    exact ⟨hLast.function.trans hNext.function, hLast.block.trans hNext.block,
      hLast.rest.trans hNext.rest⟩

structure Starts (f : Function) (frame : Frame) : Prop where
  function : frame.function = f
  block : frame.block = ⟨0⟩
  code : ∃ block, f.blocks.get? ⟨0⟩ = some block ∧ frame.rest = block.code

theorem enter_gives (f : Function) (arguments : List Word) (destination : Option RegisterId) :
    Step.Gives Stop.Inherent (Starts f) (enter f arguments destination) := by
  refine (Step.Gives.orFault Stop.inherent_fault _).bind ?_
  intro block hBlock
  apply ((blank f block.code destination).foldlM_write_gives (f.parameters.zip arguments)).mono
  intro frame hFrame
  exact ⟨hFrame.function, hFrame.block, block, hBlock, hFrame.rest⟩

end Frame

/-- What an instruction can ask for: to go on behind it or in one of its targets, to call a function of the
module that has a body, to ask the host, or to return. -/
def Action.Of (module : Module) (frame : Frame) (instruction : Instruction) : Action → Prop
  | .resume next => frame.SamePlace next ∨ ∃ target ∈ instruction.targets, frame.Enters target next
  | .call next callee _ _ => next = frame ∧ callee.isDeclaration = false ∧
    ∃ id, module.get? id = some callee
  | .host next _ _ _ => next = frame
  | .ret _ => True

theorem resume_gives {module : Module} {frame : Frame} {instruction : Instruction} {attempt : Step Frame}
    (h : Step.Gives Stop.Inherent frame.SamePlace attempt) :
    Step.Gives Stop.Inherent (Action.Of module frame instruction) (Action.resume <$> attempt) := by
  exact h.bind fun _ hNext => .inl hNext

theorem execute_gives (module : Module) (frame : Frame) (instruction : Instruction) :
    Step.Gives Stop.Inherent (Action.Of module frame instruction)
      (Machine.execute module frame instruction) := by
  cases instruction with
  | alloca slot => exact resume_gives (frame.writeSlot_gives slot 0)
  | load destination slot =>
    refine (Step.Gives.orFault Stop.inherent_fault _).bind ?_
    intro word _
    exact resume_gives (frame.write_gives destination (.int word))
  | store slot value =>
    refine (frame.readWord_gives value).bind ?_
    intro word _
    exact resume_gives (frame.writeSlot_gives slot word)
  | arith op destination lhs rhs =>
    refine (frame.readWord_gives lhs).bind fun left _ => (frame.readWord_gives rhs).bind fun right _ => ?_
    exact resume_gives (frame.write_gives destination _)
  | compare predicate destination lhs rhs =>
    refine (frame.readWord_gives lhs).bind fun left _ => (frame.readWord_gives rhs).bind fun right _ => ?_
    exact resume_gives (frame.write_gives destination _)
  | extend destination operand ty =>
    refine (frame.readWord_gives operand).bind ?_
    intro word _
    exact resume_gives (frame.write_gives destination (.int word))
  | call callee arguments destination =>
    rw [Machine.execute]
    cases hCallee : module.get? callee with
    | none =>
      intro limit h
      cases h
    | some function =>
      refine (frame.readWords_gives arguments).bind ?_
      intro words _
      cases hBody : function.isDeclaration with
      | true => exact rfl
      | false => exact ⟨rfl, hBody, callee, hCallee⟩
  | phi destination sources =>
    rw [Machine.execute]
    cases frame.previous.bind sources.get? with
    | none =>
      intro limit h
      cases h
    | some source =>
      refine (frame.read_gives source).bind ?_
      intro value _
      exact resume_gives (frame.write_gives destination value)
  | jump target =>
    refine (frame.goto_gives target).bind ?_
    intro next hNext
    exact .inr ⟨target, List.mem_singleton_self target, hNext⟩
  | branch condition positive negative =>
    refine (frame.read_gives condition).bind ?_
    intro value _
    refine (frame.goto_gives _).bind ?_
    intro next hNext
    refine .inr ⟨_, ?_, hNext⟩
    cases value.toBool with
    | true => exact List.mem_cons_self
    | false => exact List.mem_cons_of_mem _ List.mem_cons_self
  | ret value =>
    cases value with
    | none => exact trivial
    | some operand => exact (frame.read_gives operand).bind fun _ _ => trivial

/-! ## Runs without a limit -/

namespace Progress

variable {σ : Type}

def frames : Progress σ → Nat
  | .running _ callers _ => callers.depth + 1
  | .halted _ _ => 0

def state : Progress σ → σ
  | .running _ _ state => state
  | .halted _ state => state

/-- The frames that are live and the one, if any, that the next instruction asks for. -/
def demand (module : Module) : Progress σ → Nat
  | .running frame callers _ =>
    match frame.rest with
    | [] => callers.depth + 1
    | instruction :: rest =>
      match Machine.execute module (frame.past rest) instruction with
      | .ok (.call ..) => callers.depth + 2
      | _ => callers.depth + 1
  | .halted _ _ => 0

/-- The end of a run that has reached a limit. -/
def CutOff (p : Progress σ) : Prop := ∃ limit state, p = .halted (.error (.error (.callDepthExceeded limit))) state

end Progress

namespace Machine

variable {σ : Type} (host : Host σ) (module : Module)

/-- A step without a limit, since there is always room for one more frame. -/
def next : Progress σ → Progress σ
  | .running frame callers state => step host module (callers.depth + 2) frame callers state
  | .halted result state => .halted result state

def roam (fuel : Nat) (p : Progress σ) : Progress σ := (next host module)^[fuel] p

theorem roam_succ (fuel : Nat) (p : Progress σ) :
    roam host module (fuel + 1) p = next host module (roam host module fuel p) :=
  Function.iterate_succ_apply' _ _ _

/-- Calls a function and does up to `fuel` steps without a limit. -/
def callFreely (fuel : Nat) (name : String) (arguments : List Word) (state : σ) : Progress σ :=
  roam host module fuel (start host module name arguments state)

theorem advance_succ (limit fuel : Nat) (p : Progress σ) : advance host module limit (fuel + 1) p =
    advance host module limit 1 (advance host module limit fuel p) :=
  advance_add host module limit fuel 1 p

variable {host module}

section Calls

variable {frame next : Frame} {callers : Callers} {state : σ} {instruction : Instruction}
  {rest : List Instruction} {callee : Function} {arguments : List Word} {register : Option RegisterId}

theorem demand_of_call (hRest : frame.rest = instruction :: rest)
    (hCall : execute module (frame.past rest) instruction = .ok (.call next callee arguments register)) :
    (Progress.running frame callers state).demand module = callers.depth + 2 := by
  rw [Progress.demand, hRest]
  dsimp only
  rw [hCall]

theorem step_of_call (limit : Nat) (hRest : frame.rest = instruction :: rest)
    (hCall : execute module (frame.past rest) instruction = .ok (.call next callee arguments register)) :
    step host module limit frame callers state =
      enter limit next callers callee arguments register state :=
  step_of_execute host limit callers state hRest hCall

end Calls

/-- A run asks for more frames than it has only to call a function with a body. -/
theorem exists_call_of_lt_demand {p : Progress σ} (h : p.frames < p.demand module) :
    ∃ frame callers state instruction rest next callee arguments register,
      p = .running frame callers state ∧ frame.rest = instruction :: rest ∧
      execute module (frame.past rest) instruction = .ok (.call next callee arguments register) := by
  cases p with
  | halted result state => exact absurd h (Nat.not_lt_zero _)
  | running frame callers state =>
    rw [Progress.frames, Progress.demand] at h
    split at h
    · exact absurd h (Nat.lt_irrefl _)
    · rename_i instruction rest hRest
      split at h
      · rename_i next callee arguments register hCall
        exact ⟨frame, callers, state, instruction, rest, next, callee, arguments, register, rfl, hRest, hCall⟩
      · exact absurd h (Nat.lt_irrefl _)

/-- With room for what a step asks for, the limit makes no difference. -/
theorem advance_eq_next {limit : Nat} {p : Progress σ} (h : p.demand module ≤ max limit 1) :
    advance host module limit 1 p = next host module p := by
  cases p with
  | halted result state => exact advance_halted host module limit 1 result state
  | running frame callers state =>
    rw [advance_one, next]
    cases hRest : frame.rest with
    | nil => rw [step, step, hRest]
    | cons instruction rest =>
      cases hAction : execute module (frame.past rest) instruction with
      | error stop => rw [step_of_error _ _ _ _ hRest hAction, step_of_error _ _ _ _ hRest hAction]
      | ok action =>
        cases action with
        | resume _ | host _ _ _ _ | ret _ =>
          rw [step_of_execute _ _ _ _ hRest hAction, step_of_execute _ _ _ _ hRest hAction]
          rfl
        | call next callee arguments register =>
          rw [demand_of_call hRest hAction] at h
          rw [step_of_call _ hRest hAction, step_of_call _ hRest hAction, enter, enter,
            if_neg (by omega), if_neg (by omega)]

/-- Without room for what it asks for, a step ends the run and does nothing else. -/
theorem advance_eq_cutOff {limit : Nat} {p : Progress σ} (hFrames : p.frames ≤ max limit 1)
    (h : max limit 1 < p.demand module) : advance host module limit 1 p =
      .halted (.error (.error (.callDepthExceeded limit))) p.state := by
  obtain ⟨frame, callers, state, instruction, rest, next, callee, arguments, register, rfl, hRest, hCall⟩ :=
    exists_call_of_lt_demand (Nat.lt_of_le_of_lt hFrames h)
  rw [demand_of_call hRest hCall] at h
  rw [advance_one, step_of_call limit hRest hCall, enter, if_pos (by omega)]
  rfl

theorem frames_proceed_le (callers : Callers) (state : σ) (attempt : Step Frame) :
    (proceed callers state attempt).frames ≤ callers.depth + 1 := by
  cases attempt with
  | ok frame => exact Nat.le_refl _
  | error stop => exact Nat.zero_le _

theorem depth_of_pop? {callers others : Callers} {frame : Frame} (h : callers.pop? = some (frame, others)) :
    callers.depth = others.depth + 1 := by
  obtain ⟨frames, depth, rfl⟩ := callers
  cases frames with
  | nil => cases h
  | cons first rest =>
    cases h
    rfl

theorem frames_le_demand (p : Progress σ) : p.frames ≤ p.demand module := by
  cases p with
  | halted result state => exact Nat.le_refl _
  | running frame callers state =>
    rw [Progress.frames, Progress.demand]
    split
    · exact Nat.le_refl _
    · split
      · exact Nat.le_succ _
      · exact Nat.le_refl _

/-- A step makes no frames that it has not asked for. -/
theorem frames_next_le (p : Progress σ) : (next host module p).frames ≤ p.demand module := by
  cases p with
  | halted result state => exact Nat.le_refl _
  | running frame callers state =>
    have hLe : (Progress.running frame callers state).frames ≤
        (Progress.running frame callers state).demand module := frames_le_demand _
    rw [Progress.frames] at hLe
    rw [next]
    cases hRest : frame.rest with
    | nil =>
      rw [step, hRest]
      exact Nat.zero_le _
    | cons instruction rest =>
      cases hAction : execute module (frame.past rest) instruction with
      | error stop =>
        rw [step_of_error _ _ _ _ hRest hAction]
        exact Nat.zero_le _
      | ok action =>
        rw [step_of_execute _ _ _ _ hRest hAction]
        cases action with
        | resume next => exact hLe
        | call next callee arguments register =>
          rw [demand_of_call hRest hAction, act, enter, if_neg (by omega)]
          exact frames_proceed_le _ _ _
        | host next symbol arguments register =>
          rw [act]
          rcases host.call symbol arguments state with ⟨error | answer, after⟩
          · exact Nat.zero_le _
          · exact Nat.le_trans (frames_proceed_le _ _ _) hLe
        | ret value =>
          rw [act]
          cases hPop : callers.pop? with
          | none => exact Nat.zero_le _
          | some popped =>
            have hDepth := depth_of_pop? hPop
            have hFrames := frames_proceed_le popped.2 state (popped.1.receive frame.destination value)
            dsimp only
            omega

/-! ## Runs with and without a limit -/

section Runs

variable {limit n : Nat} {p : Progress σ} (hFrames : p.frames ≤ max limit 1)
  (h : ∀ k < n, (roam host module k p).demand module ≤ max limit 1)
include hFrames h

theorem frames_roam_le : (roam host module n p).frames ≤ max limit 1 := by
  cases n with
  | zero => exact hFrames
  | succ n =>
    rw [roam_succ]
    exact Nat.le_trans (frames_next_le _) (h n (Nat.lt_succ_self n))

omit hFrames in
/-- The two runs go together as long as there is room. -/
theorem advance_eq_roam : advance host module limit n p = roam host module n p := by
  induction n with
  | zero => exact advance_zero _ _ _ _
  | succ n ih =>
    have hBefore : ∀ k < n, (roam host module k p).demand module ≤ max limit 1 :=
      fun k hk => h k (Nat.lt_succ_of_lt hk)
    rw [advance_succ, ih hBefore, advance_eq_next (h n (Nat.lt_succ_self n)), roam_succ]

theorem advance_eq_cutOff_of_roam (hDemand : max limit 1 < (roam host module n p).demand module) :
    advance host module limit (n + 1) p =
      .halted (.error (.error (.callDepthExceeded limit))) (roam host module n p).state := by
  rw [advance_succ, advance_eq_roam h]
  exact advance_eq_cutOff (frames_roam_le hFrames h) hDemand

end Runs

/-- A run with a limit is the run without one, or is cut off where that run first asks for too much. -/
theorem advance_cases (host : Host σ) (module : Module) {limit : Nat} {p : Progress σ}
    (hFrames : p.frames ≤ max limit 1) (n : Nat) :
    (∀ k < n, (roam host module k p).demand module ≤ max limit 1) ∧
        advance host module limit n p = roam host module n p ∨
      ∃ m < n, (∀ k < m, (roam host module k p).demand module ≤ max limit 1) ∧
        max limit 1 < (roam host module m p).demand module ∧
        advance host module limit n p =
          .halted (.error (.error (.callDepthExceeded limit))) (roam host module m p).state := by
  induction n with
  | zero =>
    left
    exact ⟨fun k hk => absurd hk (Nat.not_lt_zero k), advance_zero _ _ _ _⟩
  | succ n ih =>
    rcases ih with ⟨hBefore, -⟩ | ⟨m, hm, hBefore, hDemand, hCut⟩
    · rcases Nat.lt_or_ge (max limit 1) ((roam host module n p).demand module) with hLt | hLe
      · right
        exact ⟨n, Nat.lt_succ_self n, hBefore, hLt, advance_eq_cutOff_of_roam hFrames hBefore hLt⟩
      · left
        have hAll : ∀ k < n + 1, (roam host module k p).demand module ≤ max limit 1 := by
          intro k hk
          rcases Nat.lt_succ_iff_lt_or_eq.mp hk with hk | rfl
          · exact hBefore k hk
          · exact hLe
        exact ⟨hAll, advance_eq_roam hAll⟩
    · right
      refine ⟨m, Nat.lt_succ_of_lt hm, hBefore, hDemand, ?_⟩
      exact advance_of_le hCut (Nat.le_succ n)

/-! ## Free runs are not cut off -/

theorem not_cutOff_error {stop : Stop} (h : stop.Inherent) (state : σ) :
    ¬ (Progress.halted (.error stop) state).CutOff := by
  rintro ⟨limit, after, hEq⟩
  cases hEq
  exact h limit rfl

theorem not_cutOff_proceed {post : Frame → Prop} {attempt : Step Frame}
    (h : attempt.Gives Stop.Inherent post) (callers : Callers) (state : σ) :
    ¬ (proceed callers state attempt).CutOff := by
  cases attempt with
  | error stop => exact not_cutOff_error h state
  | ok frame =>
    rintro ⟨limit, after, hEq⟩
    cases hEq

end Machine

/-- A host that does not report a limit of its own. -/
def Host.Inherent {σ : Type} (host : Host σ) : Prop :=
  ∀ symbol arguments state error after, host.call symbol arguments state = (.error error, after) →
    Stop.Inherent (.error error)

theorem standardHost_inherent : standardHost.Inherent := by
  intro symbol arguments sink error after hCall limit hEq
  cases hEq
  simp only [standardHost, hostOver] at hCall
  split at hCall
  · cases arguments with
    | nil => cases hCall
    | cons count values =>
      simp only [puts] at hCall
      split at hCall
      · split at hCall
        · cases hCall
        · cases hCall
      · cases hCall
  · cases hCall

theorem Function.exists_first_block {f : Function} (h : f.isDeclaration = false) :
    ∃ block, f.blocks.get? ⟨0⟩ = some block :=
  Table.exists_of_lt (f.isDeclaration_eq_false_iff.mp h)

namespace Machine

variable {σ : Type} {host : Host σ} {module : Module}

theorem not_cutOff_next (hHost : host.Inherent) {p : Progress σ} (h : ¬ p.CutOff) :
    ¬ (next host module p).CutOff := by
  cases p with
  | halted result state => exact h
  | running frame callers state =>
    rw [next]
    cases hRest : frame.rest with
    | nil =>
      rw [step, hRest]
      exact not_cutOff_error Stop.inherent_fault state
    | cons instruction rest =>
      have hGives := execute_gives module (frame.past rest) instruction
      cases hAction : execute module (frame.past rest) instruction with
      | error stop =>
        rw [hAction] at hGives
        rw [step_of_error _ _ _ _ hRest hAction]
        exact not_cutOff_error hGives state
      | ok action =>
        rw [step_of_execute _ _ _ _ hRest hAction]
        cases action with
        | resume next =>
          rintro ⟨limit, after, hEq⟩
          cases hEq
        | call next callee arguments register =>
          rw [act, enter, if_neg (by omega)]
          exact not_cutOff_proceed (Frame.enter_gives callee arguments register) _ _
        | host next symbol arguments register =>
          rw [act]
          rcases hCall : host.call symbol arguments state with ⟨error | answer, after⟩
          · exact not_cutOff_error (hHost symbol arguments state error after hCall) after
          · exact not_cutOff_proceed (next.receive_gives register _) callers after
        | ret value =>
          rw [act]
          cases callers.pop? with
          | none =>
            rintro ⟨limit, after, hEq⟩
            cases hEq
          | some popped => exact not_cutOff_proceed (popped.1.receive_gives _ _) popped.2 state

theorem not_cutOff_start (hHost : host.Inherent) (name : String) (arguments : List Word) (state : σ) :
    ¬ (start host module name arguments state).CutOff := by
  rw [start]
  cases module.functions.findLast? (·.name = name) with
  | none =>
    rintro ⟨limit, after, hEq⟩
    cases hEq
  | some found =>
    dsimp only
    split
    · rintro ⟨limit, after, hEq⟩
      cases hEq
    · split
      · rcases hCall : host.call name arguments state with ⟨error | answer, after⟩
        · exact not_cutOff_error (hHost name arguments state error after hCall) after
        · rintro ⟨limit, after, hEq⟩
          cases hEq
      · exact not_cutOff_proceed (Frame.enter_gives found.2 arguments none) _ _

theorem not_cutOff_roam (hHost : host.Inherent) {p : Progress σ} (h : ¬ p.CutOff) (n : Nat) :
    ¬ (roam host module n p).CutOff := by
  induction n with
  | zero => exact h
  | succ n ih =>
    rw [roam_succ]
    exact not_cutOff_next hHost ih

theorem frames_start_le (name : String) (arguments : List Word) (state : σ) :
    (start host module name arguments state).frames ≤ 1 := by
  rw [start]
  cases module.functions.findLast? (·.name = name) with
  | none => exact Nat.zero_le _
  | some found =>
    dsimp only
    split
    · exact Nat.zero_le _
    · split
      · rcases host.call name arguments state with ⟨error | answer, after⟩ <;> exact Nat.zero_le _
      · exact frames_proceed_le _ _ _

theorem cutOff_iff_demand (hHost : host.Inherent) (limit : Nat) {p : Progress σ} (h : ¬ p.CutOff)
    (hFrames : p.frames ≤ 1) : (∃ fuel, (advance host module limit fuel p).CutOff) ↔
      ∃ fuel, max limit 1 < (roam host module fuel p).demand module := by
  have hRoom : p.frames ≤ max limit 1 := Nat.le_trans hFrames (Nat.le_max_right _ _)
  constructor
  · rintro ⟨fuel, hCut⟩
    rcases advance_cases host module hRoom fuel with ⟨-, hSame⟩ | ⟨m, -, -, hDemand, -⟩
    · rw [hSame] at hCut
      exact absurd hCut (not_cutOff_roam hHost h fuel)
    · exact ⟨m, hDemand⟩
  · rintro ⟨fuel, hDemand⟩
    refine ⟨fuel + 1, ?_⟩
    rcases advance_cases host module hRoom (fuel + 1) with ⟨hAll, -⟩ | ⟨m, -, -, -, hCut⟩
    · exact absurd (hAll fuel (Nat.lt_succ_self fuel)) (Nat.not_le_of_lt hDemand)
    · exact ⟨limit, _, hCut⟩

/-- Where every frame can be made, what a run asks for is what it has one step later. -/
theorem frames_iff_demand
    (hParameters : ∀ f ∈ module.functions.values, ∀ id ∈ f.parameters, id.index < f.registers.size)
    (bound : Nat) (p : Progress σ) : (∃ fuel, bound < (roam host module fuel p).frames) ↔
      ∃ fuel, bound < (roam host module fuel p).demand module := by
  constructor
  · rintro ⟨fuel, hFuel⟩
    exact ⟨fuel, Nat.lt_of_lt_of_le hFuel (frames_le_demand _)⟩
  · rintro ⟨fuel, hFuel⟩
    rcases Nat.lt_or_ge (roam host module fuel p).frames ((roam host module fuel p).demand module) with
      hLt | hLe
    · refine ⟨fuel + 1, ?_⟩
      obtain ⟨frame, callers, state, instruction, rest, next, callee, arguments, register, hp, hRest, hCall⟩ :=
        exists_call_of_lt_demand hLt
      rw [roam_succ]
      rw [hp] at hFuel ⊢
      rw [demand_of_call hRest hCall] at hFuel
      have hGives := execute_gives module (frame.past rest) instruction
      rw [hCall] at hGives
      obtain ⟨-, hBody, id, hId⟩ := hGives
      have hMem : callee ∈ module.functions.values :=
        List.mem_map.mpr ⟨(id, callee), IdMap.mem_of_get? hId, rfl⟩
      obtain ⟨block, hBlock⟩ := Function.exists_first_block hBody
      rw [Machine.next, step_of_call _ hRest hCall, Machine.enter, if_neg (by omega),
        Frame.enter_eq hBlock (hParameters callee hMem)]
      exact hFuel
    · exact ⟨fuel, Nat.lt_of_lt_of_le hFuel hLe⟩

end Machine

/-! ## What was written stays written -/

def Sink.Continues (before after : Sink) : Prop := ∃ more, after.written = before.written ++ more

namespace Sink.Continues

theorem refl (sink : Sink) : sink.Continues sink := ⟨"", String.append_empty.symm⟩

theorem trans {first second third : Sink} (h : first.Continues second) (hNext : second.Continues third) :
    first.Continues third := by
  obtain ⟨more, hMore⟩ := h
  obtain ⟨others, hOthers⟩ := hNext
  exact ⟨more ++ others, by rw [hOthers, hMore, String.append_assoc]⟩

theorem write (sink : Sink) (text : String) : sink.Continues (sink.write text).2 := by
  rw [Sink.write]
  cases sink.capacity with
  | none => exact ⟨text, rfl⟩
  | some room => exact ⟨_, rfl⟩

theorem call (symbol : String) (arguments : List Word) (sink : Sink) :
    sink.Continues (standardHost.call symbol arguments sink).2 := by
  simp only [standardHost, hostOver]
  split
  · cases arguments with
    | nil => exact .refl sink
    | cons count values =>
      rw [puts]
      split
      · exact .write sink _
      · exact .refl sink
  · exact .refl sink

end Sink.Continues

namespace Machine

theorem state_proceed {σ : Type} (callers : Callers) (state : σ) (attempt : Step Frame) :
    (proceed callers state attempt).state = state := by
  cases attempt <;> rfl

theorem step_continues (module : Module) (limit : Nat) (frame : Frame) (callers : Callers) (sink : Sink) :
    sink.Continues (step standardHost module limit frame callers sink).state := by
  cases hRest : frame.rest with
  | nil =>
    rw [step, hRest]
    exact .refl sink
  | cons instruction rest =>
    cases hAction : execute module (frame.past rest) instruction with
    | error stop =>
      rw [step_of_error _ _ _ _ hRest hAction]
      exact .refl sink
    | ok action =>
      rw [step_of_execute _ _ _ _ hRest hAction]
      cases action with
      | resume next => exact .refl sink
      | call next callee arguments register =>
        rw [act, enter]
        split
        · exact .refl sink
        · rw [state_proceed]
          exact .refl sink
      | host next symbol arguments register =>
        have hContinues := Sink.Continues.call symbol arguments sink
        rw [act]
        rcases hCall : standardHost.call symbol arguments sink with ⟨error | answer, after⟩
        · rw [hCall] at hContinues
          exact hContinues
        · rw [hCall] at hContinues
          rw [state_proceed]
          exact hContinues
      | ret value =>
        rw [act]
        cases callers.pop? with
        | none => exact .refl sink
        | some popped =>
          rw [state_proceed]
          exact .refl sink

theorem advance_continues (module : Module) (limit fuel : Nat) (p : Progress Sink) :
    p.state.Continues (advance standardHost module limit fuel p).state := by
  induction fuel generalizing p with
  | zero =>
    rw [advance_zero]
    exact .refl _
  | succ fuel ih =>
    cases p with
    | halted result sink => exact .refl sink
    | running frame callers sink => exact (step_continues module limit frame callers sink).trans (ih _)

end Machine

/-- A limit only cuts runs off, and it does so exactly. Under a higher limit a call that was not cut off goes the same
way to the same end, and one that was cut off goes on from what it had written. A call is cut off if and only
if without a limit it would ask for more frames than the limit, or than one where the limit is lower; in modules
whose parameters have registers, so that every frame can be made, this is to have more frames at once. -/
theorem Machine.limit_cuts_exactly (module : Module) (name : String) (arguments : List Word) (sink : Sink)
    {limit limit' : Nat} (hLe : limit ≤ limit') :
    let run := fun limit fuel => Machine.call standardHost module limit fuel name arguments sink
    let free := fun fuel => Machine.callFreely standardHost module fuel name arguments sink
    (∀ fuel result after, run limit fuel = .halted result after → ¬ (run limit fuel).CutOff →
      run limit' fuel = .halted result after) ∧
    (∀ fuel, (run limit fuel).CutOff → ∃ enough, ∀ later, enough ≤ later →
      ∃ more, (run limit' later).state.written = (run limit fuel).state.written ++ more) ∧
    ((∃ fuel, (run limit fuel).CutOff) ↔ ∃ fuel, max limit 1 < (free fuel).demand module) ∧
    ((∀ f ∈ module.functions.values, ∀ id ∈ f.parameters, id.index < f.registers.size) →
      ((∃ fuel, (run limit fuel).CutOff) ↔ ∃ fuel, max limit 1 < (free fuel).frames)) := by
  intro run free
  have hStart : (Machine.start standardHost module name arguments sink).frames ≤ 1 :=
    Machine.frames_start_le name arguments sink
  have hFree : ¬ (Machine.start standardHost module name arguments sink).CutOff :=
    Machine.not_cutOff_start standardHost_inherent name arguments sink
  have hRoom : (Machine.start standardHost module name arguments sink).frames ≤ max limit 1 :=
    Nat.le_trans hStart (Nat.le_max_right _ _)
  have hMax : max limit 1 ≤ max limit' 1 := by omega
  have hIff : (∃ fuel, (run limit fuel).CutOff) ↔ ∃ fuel, max limit 1 < (free fuel).demand module :=
    Machine.cutOff_iff_demand standardHost_inherent limit hFree hStart
  refine ⟨?_, ?_, hIff, ?_⟩
  · intro fuel result after hRun hNot
    rcases Machine.advance_cases standardHost module hRoom fuel with ⟨hAll, hSame⟩ | ⟨m, -, -, -, hCut⟩
    · have hSame' := Machine.advance_eq_roam fun k hk => Nat.le_trans (hAll k hk) hMax
      exact (hSame'.trans hSame.symm).trans hRun
    · exact absurd ⟨limit, _, hCut⟩ hNot
  · intro fuel hCut
    rcases Machine.advance_cases standardHost module hRoom fuel with ⟨-, hSame⟩ | ⟨m, -, hAll, -, hEnd⟩
    · rw [show run limit fuel = _ from hSame] at hCut
      exact absurd hCut (Machine.not_cutOff_roam standardHost_inherent hFree fuel)
    · refine ⟨m, fun later hLater => ?_⟩
      have hSame := Machine.advance_eq_roam fun k hk => Nat.le_trans (hAll k hk) hMax
      obtain ⟨rest, rfl⟩ := Nat.exists_eq_add_of_le hLater
      have hWritten : (run limit fuel).state =
          (Machine.roam standardHost module m (Machine.start standardHost module name arguments sink)).state := by
        rw [show run limit fuel = _ from hEnd]
        rfl
      have hLast := Machine.advance_continues module limit' rest
        (Machine.advance standardHost module limit' m (Machine.start standardHost module name arguments sink))
      rw [← Machine.advance_add, hSame] at hLast
      rw [hWritten]
      exact hLast
  · intro hParameters
    exact hIff.trans (Machine.frames_iff_demand hParameters _ _).symm

/-- A function that writes a line and calls itself, forever. -/
def chatter : Module where
  name := "m"
  functions := .ofList [
    (⟨0⟩, Lowering.hostFunction),
    (⟨1⟩, {
      name := "again"
      signature := .ofArity 0
      linkage := .external
      registers := .ofList [.i32]
      parameters := []
      blocks := .ofList [{
        label := "entry"
        code := [.call ⟨0⟩ [.const (.int 1), .const (.int 7)] none, .call ⟨1⟩ [] (some ⟨0⟩),
          .ret (some (.register ⟨0⟩))] }] })]

theorem Machine.limit_cuts_exactly_chatter :
    2 ≤ 3 ∧
      Machine.call standardHost chatter 2 4 "again" [] {} =
        .halted (.error (.error (.callDepthExceeded 2))) { written := "7\n7\n" } ∧
      (∃ enough, ∀ later, enough ≤ later → ∃ more,
        (Machine.call standardHost chatter 3 later "again" [] {}).state.written = "7\n7\n" ++ more) ∧
      ∃ fuel, 2 < (Machine.callFreely standardHost chatter fuel "again" [] {}).frames := by
  have hLe : 2 ≤ 3 := by decide
  have hCut : Machine.call standardHost chatter 2 4 "again" [] {} =
      .halted (.error (.error (.callDepthExceeded 2))) { written := "7\n7\n" } := rfl
  have hParameters : ∀ f ∈ chatter.functions.values, ∀ id ∈ f.parameters, id.index < f.registers.size := by
    decide
  obtain ⟨-, hPrefix, -, hFrames⟩ := Machine.limit_cuts_exactly chatter "again" [] {} hLe
  exact ⟨hLe, hCut, hPrefix 4 ⟨2, _, hCut⟩, (hFrames hParameters).mp ⟨4, 2, _, hCut⟩⟩

/-- A function that calls another, whose parameter has no register. Verification does not look at parameters. -/
def unmakeable : Module where
  name := "m"
  functions := .ofList [
    (⟨0⟩, {
      name := "f"
      signature := { parameters := [], result := .void }
      linkage := .external
      registers := .empty
      parameters := []
      blocks := .ofList [{ label := "entry", code := [.call ⟨1⟩ [.const (.int 7)] none, .ret none] }] }),
    (⟨1⟩, {
      name := "g"
      signature := { parameters := [.i32], result := .void }
      linkage := .external
      registers := .empty
      parameters := [⟨0⟩]
      blocks := .ofList [{ label := "entry", code := [.ret none] }] })]

/-- Without a limit the frame of the callee faults before it is live. -/
theorem Machine.callFreely_unmakeable (fuel : Nat) :
    Machine.callFreely standardHost unmakeable (fuel + 1) "f" [] {} = .halted (.error .fault) {} := by
  induction fuel with
  | zero => rfl
  | succ fuel ih =>
    rw [callFreely, roam_succ, ← callFreely, ih]
    rfl

/-- Frames that are live do not decide where a limit cuts. It is tested before a frame is made, so it also refuses
one that could not be made. -/
theorem Machine.not_cutOff_iff_frames_unmakeable :
    unmakeable.verify = [] ∧
      ¬ ((∃ fuel, (Machine.call standardHost unmakeable 1 fuel "f" [] {}).CutOff) ↔
        ∃ fuel, max 1 1 < (Machine.callFreely standardHost unmakeable fuel "f" [] {}).frames) := by
  refine ⟨by decide +kernel, ?_⟩
  intro hIff
  obtain ⟨fuel, hFrames⟩ := hIff.mp ⟨1, 1, {}, rfl⟩
  cases fuel with
  | zero => exact absurd hFrames (by decide)
  | succ fuel =>
    rw [callFreely_unmakeable] at hFrames
    exact absurd hFrames (by decide)

end Slate
