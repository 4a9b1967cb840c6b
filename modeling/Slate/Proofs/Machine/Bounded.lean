import Slate.Proofs.Machine.Depth

/-! # Runs of modules without back edges

Where control only goes to blocks with higher ids, a frame does each instruction of its function at most once.
The frames of a run are counted like digits, the outermost first, by the instructions that are left to them: a
step lowers one digit and may only set the one behind it, so the number goes down and the run ends.
-/

namespace Slate
set_option autoImplicit false

namespace Function

/-- Control only goes to blocks with higher ids. -/
def Forward (f : Function) : Prop :=
  ∀ id block, f.blocks.get? id = some block → ∀ instruction ∈ block.code,
    ∀ target ∈ instruction.targets, id.index < target.index

def sizeFrom (f : Function) (n : Nat) : Nat :=
  ((f.blocks.toList.drop n).map fun block => block.code.length).sum

variable (f : Function)

theorem sizeFrom_zero : f.sizeFrom 0 = f.code.length := by
  rw [sizeFrom, code, List.drop_zero, List.length_flatMap]

theorem sizeFrom_eq_add {id : BlockId} {block : Block} (h : f.blocks.get? id = some block) :
    f.sizeFrom id.index = block.code.length + f.sizeFrom (id.index + 1) := by
  have hRow : f.blocks.toList[id.index]? = some block := by
    simpa [Table.get?, Table.toList] using h
  obtain ⟨hLt, hGet⟩ := List.getElem?_eq_some_iff.mp hRow
  rw [sizeFrom, List.drop_eq_getElem_cons hLt, hGet, List.map_cons, List.sum_cons]
  rfl

theorem sizeFrom_anti {m n : Nat} (h : m ≤ n) : f.sizeFrom n ≤ f.sizeFrom m := by
  apply List.Sublist.sum_le_sum
  · exact ((List.drop_sublist_drop_left _ h)).map _
  · exact fun _ _ => Nat.zero_le _

end Function

def Module.codeSize (module : Module) : Nat :=
  (module.functions.values.map fun f => f.code.length).sum

theorem Module.code_le_codeSize {module : Module} {f : Function} (h : f ∈ module.functions.values) :
    f.code.length ≤ module.codeSize :=
  List.single_le_sum (fun _ _ => Nat.zero_le _) _ (List.mem_map_of_mem h)

namespace Frame

/-- The most instructions that a frame can still do if control only goes forward. -/
def left (frame : Frame) : Nat := frame.rest.length + frame.function.sizeFrom (frame.block.index + 1)

structure Inside (module : Module) (frame : Frame) : Prop where
  function : frame.function ∈ module.functions.values
  block : ∃ block, frame.function.blocks.get? frame.block = some block ∧ frame.rest <:+ block.code

variable {module : Module} {frame next : Frame}

theorem Inside.left_le (h : frame.Inside module) : frame.left ≤ module.codeSize := by
  obtain ⟨block, hBlock, hRest⟩ := h.block
  have hLength := hRest.length_le
  have hFrom := frame.function.sizeFrom_eq_add hBlock
  have hAll := frame.function.sizeFrom_anti (Nat.zero_le frame.block.index)
  have hModule := Module.code_le_codeSize h.function
  rw [Function.sizeFrom_zero] at hAll
  rw [left]
  omega

theorem SamePlace.left_eq (h : frame.SamePlace next) : next.left = frame.left := by
  rw [left, left, h.function, h.block, h.rest]

theorem SamePlace.inside (h : frame.SamePlace next) (hInside : frame.Inside module) :
    next.Inside module := by
  constructor
  · rw [h.function]
    exact hInside.function
  · rw [h.function, h.block, h.rest]
    exact hInside.block

theorem Starts.inside {f : Function} (h : next.Starts f) (hMem : f ∈ module.functions.values) :
    next.Inside module := by
  obtain ⟨hFunction, hBlock, block, hGet, hRest⟩ := h
  constructor
  · rw [hFunction]
    exact hMem
  · rw [hFunction, hBlock, hRest]
    exact ⟨block, hGet, List.suffix_refl _⟩

section Instruction

variable {instruction : Instruction} {rest : List Instruction} (hRest : frame.rest = instruction :: rest)
include hRest

theorem left_past : frame.left = (frame.past rest).left + 1 := by
  simp only [left, past, hRest, List.length_cons]
  omega

theorem Inside.past (h : frame.Inside module) : (frame.past rest).Inside module := by
  refine ⟨h.function, ?_⟩
  obtain ⟨block, hBlock, hSuffix⟩ := h.block
  rw [hRest] at hSuffix
  exact ⟨block, hBlock, (List.suffix_cons _ _).trans hSuffix⟩

/-- In a block that is entered, there is no more to do than in the blocks behind the one that was left. -/
theorem Enters.left_le (h : frame.Inside module) (hForward : frame.function.Forward) {target : BlockId}
    (hTarget : target ∈ instruction.targets) (hEnters : (frame.past rest).Enters target next) :
    next.Inside module ∧ next.left ≤ (frame.past rest).left := by
  obtain ⟨block, hBlock, hSuffix⟩ := h.block
  obtain ⟨hFunction, hNext, code, hCode, hCodeRest⟩ := hEnters
  have hMem : instruction ∈ block.code := by
    apply hSuffix.subset
    rw [hRest]
    exact List.mem_cons_self
  have hLt : frame.block.index < target.index := hForward _ block hBlock instruction hMem target hTarget
  have hFunction' : next.function = frame.function := hFunction
  have hCode' : frame.function.blocks.get? target = some code := hCode
  constructor
  · constructor
    · rw [hFunction']
      exact h.function
    · rw [hFunction', hNext, hCodeRest]
      exact ⟨code, hCode', List.suffix_refl _⟩
  · have hFrom := frame.function.sizeFrom_eq_add hCode'
    have hAnti := frame.function.sizeFrom_anti (show frame.block.index + 1 ≤ target.index from hLt)
    have hLeft : (frame.past rest).left = rest.length + frame.function.sizeFrom (frame.block.index + 1) :=
      rfl
    rw [left, hFunction', hNext, hCodeRest, hLeft]
    omega

end Instruction
end Frame

namespace Machine

/-- The frames of a stack as a number, the innermost first. -/
def stackWeight (base top : Nat) : List Frame → Nat
  | [] => 0
  | frame :: callers => frame.left * base ^ (top - callers.length) + stackWeight base top callers

variable {σ : Type}

def weight (module : Module) (limit : Nat) : Progress σ → Nat
  | .running frame callers _ =>
    stackWeight (module.codeSize + 1) (max limit 1 - 1) (frame :: callers.frames)
  | .halted _ _ => 0

def Within (module : Module) (limit : Nat) : Progress σ → Prop
  | .running frame callers _ => callers.depth < max limit 1 ∧
    ∀ f ∈ frame :: callers.frames, f.Inside module
  | .halted _ _ => True

/-- A run that has ended, or is within the bounds and lighter than before. -/
def Lighter (module : Module) (limit bound : Nat) : Progress σ → Prop
  | .halted _ _ => True
  | .running frame callers state => Within module limit (.running frame callers state) ∧
    weight module limit (.running frame callers state) < bound

theorem frames_of_pop? {callers others : Callers} {frame : Frame}
    (h : callers.pop? = some (frame, others)) : callers.frames = frame :: others.frames := by
  obtain ⟨frames, depth, hDepth⟩ := callers
  cases frames with
  | nil => cases h
  | cons first rest =>
    cases h
    rfl

theorem start_running {host : Host σ} {module : Module} {name : String} {arguments : List Word}
    {state after : σ} {frame : Frame} {callers : Callers}
    (h : start host module name arguments state = .running frame callers after) :
    ∃ f ∈ module.functions.values, frame.Starts f ∧ callers.frames = [] := by
  rw [start] at h
  cases hFound : module.functions.findLast? (·.name = name) with
  | none =>
    rw [hFound] at h
    cases h
  | some found =>
    rw [hFound] at h
    dsimp only at h
    have hMem : found ∈ module.functions.entries :=
      List.mem_reverse.mp (List.mem_of_find?_eq_some hFound)
    refine ⟨found.2, List.mem_map_of_mem hMem, ?_⟩
    split at h
    · cases h
    · split at h
      · split at h
        · cases h
        · cases h
      · have hGives := Frame.enter_gives found.2 arguments none
        cases hEnter : Frame.enter found.2 arguments none with
        | error stop =>
          rw [hEnter] at h
          cases h
        | ok entered =>
          rw [hEnter] at h hGives
          cases h
          exact ⟨hGives, rfl⟩

section Step

variable {module : Module} {limit bound : Nat} {callers : Callers} {frame next : Frame}

theorem lighter_of_left_lt (hWithin : Within module limit (.running frame callers ()))
    (hNext : next.Inside module) (hLeft : next.left < frame.left) (state : σ) :
    Lighter module limit (weight module limit (.running frame callers ()))
      (.running next callers state) := by
  obtain ⟨hDepth, hFrames⟩ := hWithin
  refine ⟨⟨hDepth, ?_⟩, ?_⟩
  · intro f hf
    rcases List.mem_cons.mp hf with rfl | hf
    · exact hNext
    · exact hFrames f (List.mem_cons_of_mem _ hf)
  · have hPositive : 0 < (module.codeSize + 1) ^ (max limit 1 - 1 - callers.frames.length) :=
      Nat.pow_pos (Nat.succ_pos _)
    have hLess := Nat.mul_lt_mul_of_pos_right hLeft hPositive
    simp only [weight, stackWeight]
    omega

theorem lighter_proceed (hWithin : Within module limit (.running frame callers ()))
    (hNext : next.Inside module) (hLeft : next.left < frame.left) {attempt : Step Frame}
    (hAttempt : attempt.Gives Stop.Inherent next.SamePlace) (state : σ) :
    Lighter module limit (weight module limit (.running frame callers ()))
      (proceed callers state attempt) := by
  cases attempt with
  | error stop => exact trivial
  | ok after =>
    have hSame : next.SamePlace after := hAttempt
    exact lighter_of_left_lt hWithin (hSame.inside hNext) (hSame.left_eq ▸ hLeft) state

/-- A new frame weighs less than the one instruction that was done for it. -/
theorem lighter_enter (hWithin : Within module limit (.running frame callers ()))
    (hNext : next.Inside module) (hLeft : next.left < frame.left) {callee : Function}
    (hCallee : callee ∈ module.functions.values) (arguments : List Word)
    (register : Option RegisterId) (state : σ) :
    Lighter module limit (weight module limit (.running frame callers ()))
      (enter limit next callers callee arguments register state) := by
  obtain ⟨hDepth, hFrames⟩ := hWithin
  rw [enter]
  split
  · exact trivial
  · rename_i hRoom
    have hGives := Frame.enter_gives callee arguments register
    revert hGives
    cases Frame.enter callee arguments register with
    | error stop => exact fun _ => trivial
    | ok entered =>
      intro hStarts
      have hInside := Frame.Starts.inside hStarts hCallee
      have hEntered := hInside.left_le
      refine ⟨⟨?_, ?_⟩, ?_⟩
      · change callers.depth + 1 < max limit 1
        omega
      · intro f hf
        rcases List.mem_cons.mp hf with rfl | hf
        · exact hInside
        · rcases List.mem_cons.mp hf with rfl | hf
          · exact hNext
          · exact hFrames f (List.mem_cons_of_mem _ hf)
      · have hTop : max limit 1 - 1 - callers.frames.length =
            max limit 1 - 1 - (callers.frames.length + 1) + 1 := by
          rw [← callers.depth_eq]
          omega
        simp only [weight, stackWeight, Callers.push, List.length_cons]
        rw [hTop, Nat.pow_succ]
        have hPositive : 0 < (module.codeSize + 1) ^ (max limit 1 - 1 - (callers.frames.length + 1)) :=
          Nat.pow_pos (Nat.succ_pos _)
        generalize (module.codeSize + 1) ^ (max limit 1 - 1 - (callers.frames.length + 1)) = unit
          at hPositive ⊢
        have hNew : entered.left * unit ≤ module.codeSize * unit := Nat.mul_le_mul_right unit hEntered
        have hOld : (next.left + 1) * (unit * (module.codeSize + 1)) ≤
            frame.left * (unit * (module.codeSize + 1)) := Nat.mul_le_mul_right _ hLeft
        have hUnit : unit * (module.codeSize + 1) = module.codeSize * unit + unit := by
          rw [Nat.mul_succ, Nat.mul_comm]
        rw [Nat.succ_mul] at hOld
        omega

theorem lighter_return (hWithin : Within module limit (.running frame callers ())) {caller : Frame}
    {others : Callers} (hPop : callers.pop? = some (caller, others)) (hLeft : 0 < frame.left)
    {attempt : Step Frame} (hAttempt : attempt.Gives Stop.Inherent caller.SamePlace) (state : σ) :
    Lighter module limit (weight module limit (.running frame callers ()))
      (proceed others state attempt) := by
  obtain ⟨hDepth, hFrames⟩ := hWithin
  cases attempt with
  | error stop => exact trivial
  | ok after =>
    have hSame : caller.SamePlace after := hAttempt
    have hStack : callers.frames = caller :: others.frames := frames_of_pop? hPop
    have hOthers := depth_of_pop? hPop
    refine ⟨⟨?_, ?_⟩, ?_⟩
    · omega
    · intro f hf
      rw [hStack] at hFrames
      rcases List.mem_cons.mp hf with rfl | hf
      · exact hSame.inside (hFrames caller (List.mem_cons_of_mem _ List.mem_cons_self))
      · exact hFrames f (List.mem_cons_of_mem _ (List.mem_cons_of_mem _ hf))
    · have hPositive : 0 < frame.left *
          (module.codeSize + 1) ^ (max limit 1 - 1 - callers.frames.length) :=
        Nat.mul_pos hLeft (Nat.pow_pos (Nat.succ_pos _))
      simp only [weight, stackWeight, hSame.left_eq, hStack] at hPositive ⊢
      omega

end Step

section Runs

variable {module : Module} (hForward : ∀ f ∈ module.functions.values, f.Forward) (host : Host σ)
  (limit : Nat)
include hForward

/-- The step lemma: a step ends the run or makes it lighter. -/
theorem step_lighter {frame : Frame} {callers : Callers} (state : σ)
    (hWithin : Within module limit (.running frame callers ())) :
    Lighter module limit (weight module limit (.running frame callers ()))
      (step host module limit frame callers state) := by
  have hInside := hWithin.2 frame List.mem_cons_self
  cases hRest : frame.rest with
  | nil =>
    rw [step, hRest]
    exact trivial
  | cons instruction rest =>
    have hLeft : (frame.past rest).left < frame.left := by
      rw [Frame.left_past hRest]
      exact Nat.lt_succ_self _
    have hPast := Frame.Inside.past hRest hInside
    have hGives := execute_gives module (frame.past rest) instruction
    cases hAction : execute module (frame.past rest) instruction with
    | error stop =>
      rw [step_of_error _ _ _ _ hRest hAction]
      exact trivial
    | ok action =>
      rw [hAction] at hGives
      rw [step_of_execute _ _ _ _ hRest hAction]
      cases action with
      | resume next =>
        rcases hGives with hSame | ⟨target, hTarget, hEnters⟩
        · exact lighter_of_left_lt hWithin (hSame.inside hPast) (hSame.left_eq ▸ hLeft) state
        · obtain ⟨hNext, hLe⟩ := Frame.Enters.left_le hRest hInside (hForward _ hInside.function) hTarget hEnters
          exact lighter_of_left_lt hWithin hNext (Nat.lt_of_le_of_lt hLe hLeft) state
      | call next callee arguments register =>
        obtain ⟨rfl, -, id, hId⟩ := hGives
        have hCallee : callee ∈ module.functions.values :=
          List.mem_map.mpr ⟨(id, callee), IdMap.mem_of_get? hId, rfl⟩
        exact lighter_enter hWithin hPast hLeft hCallee arguments register state
      | host next symbol arguments register =>
        cases hGives
        rw [act]
        rcases host.call symbol arguments state with ⟨error | answer, after⟩
        · exact trivial
        · exact lighter_proceed hWithin hPast hLeft (Frame.receive_gives _ _ _) after
      | ret value =>
        rw [act]
        cases hPop : callers.pop? with
        | none => exact trivial
        | some popped =>
          exact lighter_return hWithin hPop (Nat.lt_of_le_of_lt (Nat.zero_le _) hLeft)
            (Frame.receive_gives _ _ _) state

/-- The run lemma: a run ends in fewer steps than it weighs. -/
theorem advance_halts (fuel : Nat) {p : Progress σ} (hWithin : Within module limit p)
    (hFuel : weight module limit p < fuel) :
    ∃ result state, advance host module limit fuel p = .halted result state := by
  induction fuel generalizing p with
  | zero => exact absurd hFuel (Nat.not_lt_zero _)
  | succ fuel ih =>
    cases p with
    | halted result state => exact ⟨result, state, advance_halted _ _ _ _ _ _⟩
    | running frame callers state =>
      have hLighter := step_lighter hForward host limit state hWithin
      rw [advance]
      cases hStep : step host module limit frame callers state with
      | halted result after => exact ⟨result, after, advance_halted _ _ _ _ _ _⟩
      | running next others after =>
        rw [hStep] at hLighter
        obtain ⟨hNext, hLess⟩ := hLighter
        exact ih hNext (Nat.lt_of_lt_of_le hLess (Nat.le_of_lt_succ hFuel))

/-- A call ends within a number of steps that depends on the module and the limit only. -/
theorem call_halts (name : String) (arguments : List Word) (state : σ) : ∃ result after,
    call host module limit ((module.codeSize + 1) ^ max limit 1) name arguments state =
      .halted result after := by
  rw [call]
  cases hStart : start host module name arguments state with
  | halted result after => exact ⟨result, after, advance_halted _ _ _ _ _ _⟩
  | running frame callers after =>
    obtain ⟨f, hMem, hStarts, hCallers⟩ := start_running hStart
    have hInside := hStarts.inside hMem
    have hLeft := hInside.left_le
    have hDepth : callers.depth = 0 := by rw [callers.depth_eq, hCallers]; rfl
    apply advance_halts hForward
    · refine ⟨by omega, ?_⟩
      intro g hg
      rw [hCallers] at hg
      rw [List.mem_singleton.mp hg]
      exact hInside
    · have hTop : max limit 1 = max limit 1 - 1 + 1 := by omega
      have hPositive : 0 < (module.codeSize + 1) ^ (max limit 1 - 1) := Nat.pow_pos (Nat.succ_pos _)
      rw [hTop, Nat.pow_succ, Nat.mul_comm]
      simp only [weight, stackWeight, hCallers, List.length_nil, Nat.sub_zero, Nat.add_zero]
      exact Nat.mul_lt_mul_of_pos_right (Nat.lt_succ_of_le hLeft) hPositive

end Runs
end Machine
end Slate
