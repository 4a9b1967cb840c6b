import Slate.Proofs.Machine.Soundness

/-! # Phis

The phis at the start of a block take effect one after the other, so a phi sees what those above it have
written. `beforePhis` says what an operand that is read behind them stood for when control left the
predecessor. A phi that reads no register written above it, and whose register is not written again
below it, holds what its source held on the edge; one that does need not.
-/

namespace Slate
set_option autoImplicit false

structure Phi where
  destination : RegisterId
  sources : IdMap .block Operand

/-- The phis that a block starts with. -/
def leadingPhis : List Instruction → List Phi
  | .phi destination sources :: rest => ⟨destination, sources⟩ :: leadingPhis rest
  | _ => []

/-- What an operand that is read behind a phi stood for before it. -/
def Phi.before (source : BlockId) (phi : Phi) (operand : Operand) : Operand :=
  if operand = .register phi.destination then (phi.sources.get? source).getD operand else operand

/-- What an operand that is read behind phis stood for before them. -/
def beforePhis (source : BlockId) (phis : List Phi) (operand : Operand) : Operand :=
  phis.foldr (Phi.before source) operand

theorem beforePhis_of_forall_ne {source : BlockId} {phis : List Phi} {operand : Operand}
    (h : ∀ phi ∈ phis, operand ≠ .register phi.destination) :
    beforePhis source phis operand = operand := by
  induction phis with
  | nil => rfl
  | cons first rest ih =>
    rw [List.forall_mem_cons] at h
    rw [beforePhis, List.foldr_cons, ← beforePhis, ih h.2, Phi.before, if_neg h.1]

/-- A phi that does not read what is written above it, and is not written over below it. -/
theorem beforePhis_destination {source : BlockId} {above below : List Phi} {phi : Phi} {operand : Operand}
    (hSource : phi.sources.get? source = some operand)
    (hAbove : ∀ other ∈ above, operand ≠ .register other.destination)
    (hBelow : ∀ other ∈ below, other.destination ≠ phi.destination) :
    beforePhis source (above ++ phi :: below) (.register phi.destination) = operand := by
  have hLater : beforePhis source below (.register phi.destination) = .register phi.destination := by
    apply beforePhis_of_forall_ne
    intro other hOther hEq
    exact hBelow other hOther (Operand.register.inj hEq).symm
  calc beforePhis source (above ++ phi :: below) (.register phi.destination)
    _ = beforePhis source above (phi.before source (beforePhis source below (.register phi.destination))) :=
        List.foldr_append
    _ = beforePhis source above operand := by rw [hLater, Phi.before, if_pos rfl, hSource, Option.getD_some]
    _ = operand := beforePhis_of_forall_ne hAbove

namespace Frame

/-- A phi that can be executed by a frame that came from a block. -/
def Admits (frame : Frame) (source : BlockId) (phi : Phi) : Prop :=
  phi.destination.index < frame.registers.size ∧ ∃ operand, phi.sources.get? source = some operand ∧
    ∀ id, operand.register? = some id → id.index < frame.registers.size

theorem read_put {frame : Frame} {source : BlockId} {phi : Phi} {operand : Operand} {value : Value}
    (hDestination : phi.destination.index < frame.registers.size)
    (hSource : phi.sources.get? source = some operand) (hRead : frame.read operand = .ok value)
    (rest : List Instruction) (other : Operand) :
    ((frame.past rest).put phi.destination value).read other = frame.read (phi.before source other) := by
  rw [Phi.before]
  by_cases hOther : other = .register phi.destination
  · rw [if_pos hOther, hOther, hSource, Option.getD_some, hRead]
    exact read_of_holds _ ((frame.past rest).holds_put hDestination value)
  · rw [if_neg hOther]
    cases other with
    | const => rfl
    | register id =>
      have hNe : id ≠ phi.destination := fun hEq => hOther (congrArg _ hEq)
      rw [read, (frame.past rest).get?_put hDestination, if_neg hNe]
      rfl

theorem holds_of_read {frame : Frame} {id : RegisterId} {value : Value}
    (h : frame.read (.register id) = .ok value) : frame.Holds id value := by
  rw [read] at h
  split at h
  · cases h
  · cases h
  · rename_i found hFound
    cases h
    exact hFound

end Frame

namespace Machine

variable {σ : Type} (host : Host σ) (module : Module) (limit : Nat)

/-- One phi: it reads a register that was not written, or it writes what its source holds. -/
theorem step_phi {frame : Frame} (callers : Callers) (state : σ) {phi : Phi} {rest : List Instruction}
    {source : BlockId} (hRest : frame.rest = .phi phi.destination phi.sources :: rest)
    (hPrevious : frame.previous = some source) {operand : Operand}
    (hDestination : phi.destination.index < frame.registers.size)
    (hSource : phi.sources.get? source = some operand)
    (hOperand : ∀ id, operand.register? = some id → id.index < frame.registers.size) :
    (∃ id, step host module limit frame callers state =
      .halted (.error (.error (.undefinedRegister frame.function.name id))) state) ∨
    ∃ value, frame.read operand = .ok value ∧ step host module limit frame callers state =
      .running ((frame.past rest).put phi.destination value) callers state := by
  have hExecute : execute module (frame.past rest) (.phi phi.destination phi.sources) =
      (frame.read operand >>= fun value =>
        (frame.past rest).write phi.destination value >>= fun next => pure (.resume next)) := by
    simp only [execute]
    rw [show (frame.past rest).previous = some source from hPrevious, Option.bind_some, hSource]
    rfl
  have hEnds : Step.Ends (fun error => ∃ id, error = .undefinedRegister frame.function.name id)
      (fun _ => True) (frame.read operand) := Frame.read_ends (fun id => ⟨id, rfl⟩) hOperand
  cases hRead : frame.read operand with
  | ok value =>
    refine .inr ⟨value, rfl, ?_⟩
    rw [hRead] at hExecute
    have hWrite := (frame.past rest).write_eq hDestination value
    have hAction : execute module (frame.past rest) (.phi phi.destination phi.sources) =
        .ok (.resume ((frame.past rest).put phi.destination value)) :=
      hExecute.trans (congrArg (· >>= fun next => pure (Action.resume next)) hWrite)
    exact step_of_execute host limit callers state hRest hAction
  | error stop =>
    rw [hRead] at hEnds hExecute
    cases stop with
    | fault => cases hEnds
    | error error =>
      obtain ⟨id, rfl⟩ := hEnds
      exact .inl ⟨id, step_of_error host limit callers state hRest hExecute⟩

/-- The run lemma: the phis of a block, one after the other. -/
theorem advance_leadingPhis (code : List Instruction) {frame : Frame} (callers : Callers) (state : σ)
    {source : BlockId} (hRest : frame.rest = code) (hPrevious : frame.previous = some source)
    (hAdmits : ∀ phi ∈ leadingPhis code, frame.Admits source phi) :
    (∃ id, advance host module limit (leadingPhis code).length (.running frame callers state) =
      .halted (.error (.error (.undefinedRegister frame.function.name id))) state) ∨
    ∃ after : Frame,
      after = { frame with
        registers := after.registers
        rest := code.drop (leadingPhis code).length } ∧
      advance host module limit (leadingPhis code).length (.running frame callers state) =
        .running after callers state ∧
      (∀ operand, after.read operand = frame.read (beforePhis source (leadingPhis code) operand)) ∧
      ∀ phi ∈ leadingPhis code, after.Written phi.destination := by
  induction code using leadingPhis.induct generalizing frame with
  | case1 destination sources rest ih =>
    rw [leadingPhis] at hAdmits ⊢
    rw [List.forall_mem_cons] at hAdmits
    obtain ⟨⟨hDestination, operand, hSource, hOperand⟩, hAdmits⟩ := hAdmits
    have hPhi : frame.rest = .phi (Phi.mk destination sources).destination
        (Phi.mk destination sources).sources :: rest := hRest
    rcases step_phi host module limit callers state hPhi hPrevious hDestination hSource hOperand with
      ⟨id, hStep⟩ | ⟨value, hRead, hStep⟩
    · refine .inl ⟨id, ?_⟩
      rw [List.length_cons, advance, hStep, advance_halted]
    · have hSize := (frame.past rest).size_put destination value
      have hAdmits' : ∀ phi ∈ leadingPhis rest,
          ((frame.past rest).put destination value).Admits source phi := by
        intro phi hMem
        rw [Frame.Admits, hSize]
        exact hAdmits phi hMem
      have hReads := Frame.read_put hDestination hSource hRead rest
      rcases @ih ((frame.past rest).put destination value) rfl hPrevious hAdmits' with
        ⟨id, hHalted⟩ | ⟨after, hAfter, hRun, hAfterReads, hWritten⟩
      · refine .inl ⟨id, ?_⟩
        rw [List.length_cons, advance, hStep]
        exact hHalted
      · refine .inr ⟨after, hAfter, ?_, ?_, ?_⟩
        · rw [List.length_cons, advance, hStep]
          exact hRun
        · intro other
          rw [hAfterReads, hReads]
          rfl
        · rw [List.forall_mem_cons]
          refine ⟨?_, hWritten⟩
          -- Written over below, or still there.
          by_cases hOver : ∃ other ∈ leadingPhis rest, other.destination = destination
          · obtain ⟨other, hOther, hEq⟩ := hOver
            exact hEq ▸ hWritten other hOther
          · have hKept := hAfterReads (.register destination)
            rw [beforePhis_of_forall_ne] at hKept
            · exact ⟨value, Frame.holds_of_read (hKept.trans
                (Frame.read_of_holds _ ((frame.past rest).holds_put hDestination value)))⟩
            · intro other hOther hEq
              exact hOver ⟨other, hOther, (Operand.register.inj hEq).symm⟩
  | case2 code hNone =>
    rw [leadingPhis.eq_2 code hNone]
    refine .inr ⟨frame, ?_, rfl, fun operand => rfl, ?_⟩
    · rw [← hRest]
      rfl
    · intro phi hMem
      cases hMem

end Machine

/-- In a frame of a verified function that came from another block, every phi has a source for that
block. -/
theorem Frame.Steady.admits {module : Module} {frame : Frame} (h : frame.Steady module)
    {source : BlockId} (hPrevious : frame.previous = some source) {phi : Phi}
    (hMem : .phi phi.destination phi.sources ∈ frame.rest) : frame.Admits source phi := by
  obtain ⟨block, -, hArrived, hFits⟩ := h.fits hMem
  have hKeys : phi.sources.keys = block.predecessors.ids := hFits.placed
  obtain ⟨operand, hOperand⟩ := IdMap.exists_get? (hKeys ▸ hArrived source hPrevious)
  refine ⟨?_, operand, hOperand, ?_⟩
  · rw [h.registers]
    exact hFits.writes _ rfl
  · intro id hId
    rw [h.registers]
    refine hFits.reads id (List.mem_filterMap.mpr ⟨operand, ?_, hId⟩)
    exact List.mem_map.mpr ⟨(source, operand), IdMap.mem_of_get? hOperand, rfl⟩

theorem mem_of_mem_leadingPhis {code : List Instruction} {phi : Phi} (h : phi ∈ leadingPhis code) :
    .phi phi.destination phi.sources ∈ code := by
  fun_induction leadingPhis code with
  | case1 destination sources rest ih =>
    rcases List.mem_cons.mp h with rfl | h
    · exact List.mem_cons_self
    · exact List.mem_cons_of_mem _ (ih h)
  | case2 code hNone => cases h

/-- Phis take effect in order. Where a frame of a verified module has come from another block, the phis in front
of it stop at a register that was never written, or they are passed with nothing but registers changed.
Every operand then reads as the one that it stood for did on the edge. A phi that neither reads what one
above it has written nor is written over below it holds what its source held on the edge. -/
theorem Module.phis_in_order (module : Module) (hVerify : module.verify = [])
    {σ : Type} (host : Host σ) (limit fuel : Nat) (name : String) (arguments : List Word) (state : σ)
    {frame : Frame} {callers : Callers} {current : σ}
    (hCall : Machine.call host module limit fuel name arguments state = .running frame callers current)
    {source : BlockId} (hPrevious : frame.previous = some source) :
    (∃ id, Machine.advance host module limit (leadingPhis frame.rest).length
        (.running frame callers current) =
      .halted (.error (.error (.undefinedRegister frame.function.name id))) current) ∨
    ∃ after : Frame,
      after = { frame with
        registers := after.registers
        rest := frame.rest.drop (leadingPhis frame.rest).length } ∧
      Machine.advance host module limit (leadingPhis frame.rest).length
        (.running frame callers current) = .running after callers current ∧
      (∀ operand, after.read operand =
        frame.read (beforePhis source (leadingPhis frame.rest) operand)) ∧
      ∀ above phi below, leadingPhis frame.rest = above ++ phi :: below →
        (∀ other ∈ above, phi.sources.get? source ≠ some (.register other.destination)) →
        (∀ other ∈ below, other.destination ≠ phi.destination) →
        ∃ operand value, phi.sources.get? source = some operand ∧ frame.read operand = .ok value ∧
          after.Holds phi.destination value := by
  have hModule := module.verify_eq_nil_iff.mp hVerify
  have hSecure := Machine.advance_secure hModule host limit fuel
    (Machine.start_secure hModule host name arguments state)
  rw [← Machine.call, hCall] at hSecure
  have hAdmits : ∀ phi ∈ leadingPhis frame.rest, frame.Admits source phi := by
    intro phi hPhi
    exact hSecure.1.admits hPrevious (mem_of_mem_leadingPhis hPhi)
  rcases Machine.advance_leadingPhis host module limit frame.rest callers current rfl hPrevious
    hAdmits with hHalted | ⟨after, hAfter, hRun, hReads, hWritten⟩
  · exact .inl hHalted
  · refine .inr ⟨after, hAfter, hRun, hReads, ?_⟩
    intro above phi below hPhis hAbove hBelow
    have hMem : phi ∈ leadingPhis frame.rest := by
      rw [hPhis]
      exact List.mem_append_right _ List.mem_cons_self
    obtain ⟨-, operand, hSource, -⟩ := hAdmits phi hMem
    obtain ⟨value, hHolds⟩ := hWritten phi hMem
    refine ⟨operand, value, hSource, ?_, hHolds⟩
    have hEdge := hReads (.register phi.destination)
    rw [Frame.read_of_holds _ hHolds, hPhis, beforePhis_destination hSource ?_ hBelow] at hEdge
    · exact hEdge.symm
    · intro other hOther hEq
      exact hAbove other hOther (hEq ▸ hSource)

/-- A loop whose second phi reads the first one: on the edge from the loop to itself it asks for the value that
the first phi had before. -/
def lostCopyFunction : Function where
  name := "f"
  signature := .ofArity 0
  linkage := .external
  registers := .ofList [.i32, .i32, .i1]
  parameters := []
  blocks := .ofList [
    { label := "entry", code := [.jump ⟨1⟩] },
    { label := "head"
      code := [
        .phi ⟨0⟩ (.ofList [(⟨0⟩, .const (.int 1)), (⟨1⟩, .const (.int 5))]),
        .phi ⟨1⟩ (.ofList [(⟨0⟩, .const (.int 2)), (⟨1⟩, .register ⟨0⟩)]),
        .phi ⟨2⟩ (.ofList [(⟨0⟩, .const (.bool true)), (⟨1⟩, .const (.bool false))]),
        .branch (.register ⟨2⟩) ⟨1⟩ ⟨2⟩]
      predecessors := .ofList [⟨0⟩, ⟨1⟩] },
    { label := "exit", code := [.ret (some (.register ⟨1⟩))], predecessors := .ofList [⟨1⟩] }]

def lostCopy : Module where
  name := "m"
  functions := .ofList [(⟨0⟩, lostCopyFunction)]

/-- The frame of `lostCopy` in its second round, with the given registers and rest. -/
def lostCopyFrame (first second : Word) (again : Bool) (rest : List Instruction) : Frame where
  function := lostCopyFunction
  registers := .ofList [some (.int first), some (.int second), some (.bool again)]
  slots := .empty
  block := ⟨1⟩
  previous := some ⟨1⟩
  rest := rest
  destination := none

theorem call_lostCopy : Machine.call standardHost lostCopy 10 5 "f" [] {} =
    .running (lostCopyFrame 1 2 true (lostCopyFunction.codeAt ⟨1⟩)) {} {} :=
  rfl

theorem advance_lostCopy : Machine.advance standardHost lostCopy 10 3
      (.running (lostCopyFrame 1 2 true (lostCopyFunction.codeAt ⟨1⟩)) {} {}) =
    .running (lostCopyFrame 5 5 false [.branch (.register ⟨2⟩) ⟨1⟩ ⟨2⟩]) {} {} :=
  rfl

/-- In the second round the first register holds 1 on the edge, and behind the phis both hold 5. -/
theorem Module.phis_in_order_lostCopy :
    lostCopy.verify = [] ∧
      Machine.call standardHost lostCopy 10 5 "f" [] {} =
        .running (lostCopyFrame 1 2 true (lostCopyFunction.codeAt ⟨1⟩)) {} {} ∧
      ∃ after, Machine.advance standardHost lostCopy 10 3
          (.running (lostCopyFrame 1 2 true (lostCopyFunction.codeAt ⟨1⟩)) {} {}) =
          .running after {} {} ∧
        after.Holds ⟨0⟩ (.int 5) ∧ after.read (.register ⟨1⟩) = .ok (.int 5) := by
  have hVerify : lostCopy.verify = [] := by decide +kernel
  refine ⟨hVerify, call_lostCopy, ?_⟩
  rcases Module.phis_in_order lostCopy hVerify standardHost 10 5 "f" [] {} call_lostCopy rfl with
    ⟨id, hHalted⟩ | ⟨after, -, hRun, hReads, hAtOnce⟩
  · cases advance_lostCopy.symm.trans hHalted
  · obtain ⟨operand, value, hSource, hRead, hHolds⟩ := hAtOnce [] _ _ rfl
      (fun _ hMem => by cases hMem) (by decide)
    cases hSource
    cases hRead
    exact ⟨after, hRun, hHolds, hReads (.register ⟨1⟩)⟩

/-- Phis that take effect at once: behind them, each holds what its source held when its block was entered. -/
def Module.SimultaneousPhis (module : Module) : Prop :=
  ∀ {σ : Type} (host : Host σ) (limit fuel : Nat) (name : String) (arguments : List Word) (state : σ)
    (frame after : Frame) (callers others : Callers) (current final : σ) (block : Block)
    (source : BlockId),
    Machine.call host module limit fuel name arguments state = .running frame callers current →
    frame.function.blocks.get? frame.block = some block → frame.rest = block.code →
    frame.previous = some source →
    Machine.advance host module limit (leadingPhis block.code).length
      (.running frame callers current) = .running after others final →
    ∀ phi ∈ leadingPhis block.code, ∃ operand value, phi.sources.get? source = some operand ∧
      frame.read operand = .ok value ∧ after.Holds phi.destination value

/-- In a verified module phis need not take effect at once: the second phi asks for 1 and gets 5. -/
theorem Module.not_simultaneousPhis_lostCopy : lostCopy.verify = [] ∧ ¬ lostCopy.SimultaneousPhis := by
  refine ⟨by decide +kernel, ?_⟩
  intro hAtOnce
  obtain ⟨operand, value, hSource, hRead, hHolds⟩ := hAtOnce standardHost 10 5 "f" [] {} _ _ {} {} {} {} _
    ⟨1⟩ call_lostCopy rfl rfl rfl advance_lostCopy
    ⟨⟨1⟩, .ofList [(⟨0⟩, .const (.int 2)), (⟨1⟩, .register ⟨0⟩)]⟩
    (List.mem_cons_of_mem _ List.mem_cons_self)
  cases hSource
  cases hRead
  cases hHolds

end Slate
