import Slate.Proofs.Machine.Safety
import Slate.Proofs.StrictSsa

/-! # How runs end

A run of a lowered module ends with a result or with an error that a program can bring about: a function
without a body, too many frames, output that cannot be written. Frames stay valid step by step, so
no other error and no fault comes up, whatever the output does with the texts it is given.
-/

namespace Slate
set_option autoImplicit false

/-- The errors that a program can run into, where no call has more arguments than a word can count. -/
inductive Module.MayFail (module : Module) (limit : Nat) : ExecutionError → Prop
  | unresolved (id : FunctionId) (f : Function) (found : module.get? id = some f)
      (declared : f.isDeclaration = true) : MayFail module limit (.unresolvedExternal f.name)
  | depth : MayFail module limit (.callDepthExceeded limit)
  | output : MayFail module limit .output

/-- An error that a run may end with. The count that a call of `_puts` passes is a word, and a wrong one
if the call has 2³¹ arguments or more. -/
def Module.Fails (module : Module) (limit width : Nat) (error : ExecutionError) : Prop :=
  module.MayFail limit error ∨
    2 ^ 31 ≤ width ∧ ∃ expected found, error = .argumentCountMismatch "_puts" expected found

section Writing

variable {σ : Type} (write : Writer σ)

theorem puts_outcome (module : Module) (limit : Nat) {width : Nat} {values : List Word}
    (hWidth : values.length ≤ width) (output : σ) :
    (∃ after, puts write (Int32.ofInt values.length :: values) output = (.ok none, after)) ∨
      ∃ error after, puts write (Int32.ofInt values.length :: values) output = (.error error, after) ∧
        module.Fails limit width error := by
  rw [puts]
  split
  · cases hWrite : (write output (putsLine values)).1 with
    | true => exact .inl ⟨(write output (putsLine values)).2, by simp [hWrite]⟩
    | false =>
      exact .inr ⟨.output, (write output (putsLine values)).2, by simp [hWrite], .inl .output⟩
  · rename_i hCount
    refine .inr ⟨_, _, rfl, .inr ⟨?_, _, _, rfl⟩⟩
    by_contra hSmall
    refine hCount (Int32.toInt_ofInt_of_le ?_ ?_) <;> omega

/-- The host gives no result or an error that a run may end with. -/
theorem hostOver_outcome {module : Module} {width : Nat} {symbol : String} {arguments : List Word}
    {destination : Option RegisterId} (h : module.Answerable width symbol arguments destination)
    (limit : Nat) (output : σ) :
    (destination = none ∧ ∃ after, (hostOver write).call symbol arguments output = (.ok none, after)) ∨
      ∃ error after, (hostOver write).call symbol arguments output = (.error error, after) ∧
        module.Fails limit width error := by
  rcases h with ⟨rfl, hDestination, values, hWidth, rfl⟩ | ⟨hSymbol, id, f, hFound, hDeclaration, rfl⟩
  · exact (puts_outcome write module limit hWidth output).imp_left fun hOk => ⟨hDestination, hOk⟩
  · exact .inr ⟨_, _, if_neg hSymbol, .inl (.unresolved id f hFound hDeclaration)⟩

end Writing

namespace Machine

variable {σ : Type}

/-- The frames around a running one all wait for a result that its function can give. -/
def Rooted (module : Module) (width : Nat) (root : Function) : Frame → List Frame → Prop
  | frame, [] => frame.function = root
  | frame, caller :: rest => caller.Awaits module width frame.destination ∧
    (frame.destination.isSome = true → frame.function.signature.result ≠ .void) ∧
    Rooted module width root caller rest

theorem Rooted.congr {module : Module} {width : Nat} {root : Function} {frame next : Frame}
    {callers : List Frame} (h : Rooted module width root frame callers)
    (hFunction : next.function = frame.function) (hDestination : next.destination = frame.destination) :
    Rooted module width root next callers := by
  cases callers with
  | nil => exact hFunction.trans h
  | cons caller rest =>
    rw [Rooted, hFunction, hDestination]
    exact h

/-- What holds of a run of a function at any time. -/
def Keeps (module : Module) (limit width : Nat) (root : Function) : Progress σ → Prop
  | .running frame callers _ => frame.Runs module width ∧ Rooted module width root frame callers.frames
  | .halted (.ok value) _ => value.isSome = true ↔ root.signature.result ≠ .void
  | .halted (.error (.error error)) _ => module.Fails limit width error
  | .halted (.error .fault) _ => False

theorem act_keeps (write : Writer σ) {module : Module} {limit width : Nat} (hModule : module.Lowered width)
    {frame : Frame} {callers : Callers} {root : Function}
    (hRooted : Rooted module width root frame callers.frames) {action : Action}
    (hFine : action.Fine module width frame) (output : σ) :
    Keeps module limit width root
      (act (hostOver write) limit frame.destination callers output action) := by
  cases action with
  | resume next =>
    obtain ⟨hRuns, hFunction, hDestination⟩ := hFine
    exact ⟨hRuns, hRooted.congr hFunction hDestination⟩
  | call next callee arguments destination =>
    obtain ⟨hAwaits, hFunction, hDestination, ⟨id, hFound⟩, hBody, hLength, hResult⟩ := hFine
    rw [act, enter]
    split
    · exact .inl .depth
    · obtain ⟨inner, hEnter, hRuns, hCallee, hRegister⟩ :=
        hModule.enter_ok hFound hBody hLength destination
      rw [hEnter]
      refine ⟨hRuns, ?_, ?_, hRooted.congr hFunction hDestination⟩
      · rw [hRegister]
        exact hAwaits
      · rw [hRegister, hCallee]
        exact hResult
  | host next symbol arguments destination =>
    obtain ⟨hAwaits, hFunction, hDestination, hAnswerable⟩ := hFine
    rcases hostOver_outcome write hAnswerable limit output with
      ⟨rfl, after, hCall⟩ | ⟨error, after, hCall, hFails⟩
    · obtain ⟨resumed, hReceive, hRuns, hSame, hReturn⟩ := hAwaits none nofun
      rw [act, hCall]
      change Keeps module limit width root (proceed callers after (next.receive none none))
      rw [hReceive]
      exact ⟨hRuns, hRooted.congr (hSame.trans hFunction) (hReturn.trans hDestination)⟩
    · rw [act, hCall]
      exact hFails
  | ret value =>
    obtain ⟨frames, depth, hDepth⟩ := callers
    cases frames with
    | nil =>
      rw [← show frame.function = root from hRooted]
      cases value <;> exact hFine
    | cons caller others =>
      obtain ⟨hAwaits, hResult, hOthers⟩ := hRooted
      obtain ⟨resumed, hReceive, hRuns, hSame, hReturn⟩ :=
        hAwaits value fun hSome => hFine.mpr (hResult hSome)
      rw [act, Callers.pop?]
      dsimp only
      rw [hReceive]
      exact ⟨hRuns, hOthers.congr hSame hReturn⟩

theorem step_keeps (write : Writer σ) {module : Module} {limit width : Nat} (hModule : module.Lowered width)
    {frame : Frame} {callers : Callers} {root : Function} {output : σ}
    (h : Keeps module limit width root (.running frame callers output)) :
    Keeps module limit width root (step (hostOver write) module limit frame callers output) := by
  obtain ⟨⟨plan, hValid⟩, hRooted⟩ := h
  obtain ⟨front, last, hFront, -⟩ := hValid.closed
  obtain ⟨instruction, rest, hRest⟩ : ∃ instruction rest, frame.rest = instruction :: rest := by
    rw [hFront]
    cases front with
    | nil => exact ⟨last, [], rfl⟩
    | cons first front => exact ⟨first, front ++ [last], rfl⟩
  obtain ⟨action, hExecute, hFine⟩ := execute_fine hModule hValid hRest
  rw [step_of_execute (hostOver write) limit callers output hRest hExecute]
  exact act_keeps write hModule hRooted hFine output

theorem advance_keeps (write : Writer σ) {module : Module} {limit width : Nat} (hModule : module.Lowered width)
    {root : Function} (fuel : Nat) {progress : Progress σ}
    (h : Keeps module limit width root progress) :
    Keeps module limit width root (advance (hostOver write) module limit fuel progress) := by
  induction fuel generalizing progress with
  | zero => cases progress <;> exact h
  | succ fuel ih =>
    cases progress with
    | halted result output => exact h
    | running frame callers output => exact ih (step_keeps write hModule h)

end Machine

namespace Module.Lowered

variable {width : Nat} {module : Module} (h : module.Lowered width) {id : FunctionId} {f : Function}
  (hFound : module.get? id = some f)
include h hFound

theorem findLast?_eq : module.functions.findLast? (·.name = f.name) = some (id, f) := by
  have hSome : (module.functions.findLast? (·.name = f.name)).isSome = true := by
    rw [IdMap.findLast?, List.find?_isSome]
    exact ⟨(id, f), List.mem_reverse.mpr (IdMap.mem_of_get? hFound), by simp⟩
  obtain ⟨⟨other, f'⟩, hLast⟩ := Option.isSome_iff_exists.mp hSome
  have hMem : (other, f') ∈ module.functions.entries :=
    List.mem_reverse.mp (List.mem_of_find?_eq_some hLast)
  have hName : f'.name = f.name := by simpa using List.find?_some hLast
  have hOther : module.get? other = some f' := h.sorted.get?_of_mem hMem
  obtain rfl := h.unique other id f' f hOther hFound hName
  cases hFound.symm.trans hOther
  exact hLast

theorem start_keeps {σ : Type} (host : Host σ) (limit : Nat) (hBody : f.isDeclaration = false)
    {arguments : List Word} (hLength : arguments.length = f.parameters.length) (state : σ) :
    Machine.Keeps module limit width f (Machine.start host module f.name arguments state) := by
  obtain ⟨frame, hEnter, hRuns, hFunction, -⟩ := h.enter_ok hFound hBody hLength none
  rw [Machine.start, h.findLast?_eq hFound]
  dsimp only
  rw [if_neg (not_not.mpr hLength), if_neg (by simp [hBody]), hEnter]
  exact ⟨hRuns, hFunction⟩

theorem signature_eq (hBody : f.isDeclaration = false) (hName : f.name ≠ entryName) :
    f.signature = .ofArity f.parameters.length := by
  refine (h.written id f hFound ?_ ?_).signature
  · rintro rfl
    rw [h.host] at hFound
    cases hFound
    cases hBody
  · rintro rfl
    obtain ⟨entry, plan, hEntry, hEntryName, -⟩ := h.entry
    cases hEntry.symm.trans hFound
    exact hName hEntryName

/-- A call of a function with a body ends as its signature says, or fails. -/
theorem call_halted {σ : Type} {write : Writer σ} {limit fuel : Nat} (hBody : f.isDeclaration = false)
    {arguments : List Word} (hLength : arguments.length = f.parameters.length) {output after : σ}
    {result : Except Stop (Option Word)}
    (hCall : Machine.call (hostOver write) module limit fuel f.name arguments output =
      .halted result after) :
    (∃ value, result = .ok value ∧ (value.isSome = true ↔ f.signature.result ≠ .void)) ∨
      ∃ error, result = .error (.error error) ∧ module.Fails limit width error := by
  have hKeeps := Machine.advance_keeps write h fuel
    (h.start_keeps hFound (hostOver write) limit hBody hLength output)
  rw [Machine.call] at hCall
  rw [hCall] at hKeeps
  match result, hKeeps with
  | .ok value, hKeeps => exact .inl ⟨value, rfl, hKeeps⟩
  | .error (.error error), hKeeps => exact .inr ⟨error, rfl, hKeeps⟩

end Module.Lowered

/-- Over any output, running the entry function of a program gives no value, and calling any other function that has
a body gives a word, unless the run fails in one of the ways of `Fails`. -/
theorem call_lowerProgram_outcome {σ : Type} (write : Writer σ) (output : σ) (name : String)
    (program : List Item) (limit fuel : Nat) :
    (∀ result after, Machine.call (hostOver write) (lowerProgram name program).1 limit fuel entryName []
        output = .halted result after →
      result = .ok none ∨ ∃ error, result = .error (.error error) ∧
        (lowerProgram name program).1.Fails limit (widestItem program) error) ∧
    ∀ id f, (lowerProgram name program).1.get? id = some f → f.isDeclaration = false →
      f.name ≠ entryName → ∀ arguments : List Word, arguments.length = f.parameters.length →
      ∀ result after, Machine.call (hostOver write) (lowerProgram name program).1 limit fuel f.name arguments
        output = .halted result after →
      (∃ word, result = .ok (some word)) ∨ ∃ error, result = .error (.error error) ∧
        (lowerProgram name program).1.Fails limit (widestItem program) error := by
  have hLowered := lowerProgram_lowered name program
  constructor
  · intro result after hCall
    obtain ⟨f, plan, hFound, hName, -, hSignature, hSize, hStaged, -⟩ := hLowered.entry
    have hBody : f.isDeclaration = false := by
      rw [Bool.eq_false_iff, ne_eq, Function.isDeclaration, Table.isEmpty_iff]
      exact Nat.ne_of_gt hSize
    have hLength : ([] : List Word).length = f.parameters.length := by
      rw [hStaged.sound.framed.arity, hSignature]
      rfl
    rw [← hName] at hCall
    refine (hLowered.call_halted hFound hBody hLength hCall).imp_left ?_
    rintro ⟨value, rfl, hValue⟩
    rw [hSignature] at hValue
    cases value with
    | none => rfl
    | some word => exact absurd rfl (hValue.mp rfl)
  · intro id f hFound hBody hName arguments hLength result after hCall
    refine (hLowered.call_halted hFound hBody hLength hCall).imp_left ?_
    rintro ⟨value, rfl, hValue⟩
    rw [hLowered.signature_eq hFound hBody hName] at hValue
    obtain ⟨word, rfl⟩ := Option.isSome_iff_exists.mp (hValue.mpr fun hVoid => by cases hVoid)
    exact ⟨word, rfl⟩

theorem call_countdown_outcome : ∃ (f : Function) (result : Except Stop (Option Word)) (after : Sink),
    (lowerProgram "m" countdown).1.get? ⟨2⟩ = some f ∧ f.isDeclaration = false ∧ f.name ≠ entryName ∧
      [2].length = f.parameters.length ∧
      Machine.call standardHost (lowerProgram "m" countdown).1 5 100 f.name [2] {} =
        .halted result after ∧
      ((∃ word, result = .ok (some word)) ∨ ∃ error, result = .error (.error error) ∧
        (lowerProgram "m" countdown).1.Fails 5 (widestItem countdown) error) := by
  have hFound : ((lowerProgram "m" countdown).1.get? ⟨2⟩).any (fun f => !f.isDeclaration &&
      decide (f.name ≠ entryName ∧ [2].length = f.parameters.length) &&
      match Machine.call standardHost (lowerProgram "m" countdown).1 5 100 f.name [2] {} with
      | .halted .. => true
      | .running .. => false) = true := by
    decide +kernel
  obtain ⟨f, hGet, hTests⟩ := (Option.any_eq_true _ _).mp hFound
  rw [Bool.and_eq_true, Bool.and_eq_true, Bool.not_eq_true', decide_eq_true_iff] at hTests
  obtain ⟨⟨hBody, hName, hLength⟩, hHalts⟩ := hTests
  cases hCall : Machine.call standardHost (lowerProgram "m" countdown).1 5 100 f.name [2] {} with
  | running frame callers sink =>
    rw [hCall] at hHalts
    cases hHalts
  | halted result after =>
    exact ⟨f, result, after, hGet, hBody, hName, hLength, hCall,
      (call_lowerProgram_outcome Sink.write {} "m" countdown 5 100).2 ⟨2⟩ f hGet hBody hName [2] hLength result
        after hCall⟩

end Slate
