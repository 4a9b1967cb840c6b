import Slate.Proofs.Lowering.Origins
import Slate.Proofs.Machine.Journal
import Slate.Proofs.Verified

/-! # Slots of lowered functions

A lowered function has a slot for each variable and reserves all of them before it does anything else, so every
frame of a run does. The variables are those that the analysis of the tree finds, in the order in which
it finds them.
-/

namespace Slate
set_option autoImplicit false

open Analysis (Overview declaredNames)

/-! ## Code -/

namespace Function

variable {context : Context} {plan : Plan} {f : Function}

theorem prologueAt_zero (f : Function) : f.prologueAt ⟨0⟩ = f.slots.ids.map Instruction.alloca := by
  rw [prologueAt, if_pos rfl, Table.ids, List.map_map]
  rfl

theorem Staged.reservesFirst (h : f.Staged context plan) : f.ReservesFirst := by
  have hCode := h.sound.framed.code
  have hNone := h.sound.framed.noAlloca
  constructor
  · refine ⟨f.bodyAt ⟨0⟩, ?_, hNone ⟨0⟩⟩
    rw [hCode, f.prologueAt_zero]
  · intro id hId instruction hMem
    rw [hCode, List.mem_append] at hMem
    rcases hMem with hMem | hMem
    · exact absurd (mem_prologueAt hMem).1 hId
    · exact hNone id instruction hMem
  · intro instruction hMem hTarget
    rw [code_eq_flatMap, List.mem_flatMap] at hMem
    obtain ⟨id, -, hMem⟩ := hMem
    rw [hCode, List.mem_append] at hMem
    rcases hMem with hMem | hMem
    · obtain ⟨-, slot, -, rfl⟩ := mem_prologueAt hMem
      cases hTarget
    · exact h.sound.wired.entryTarget id (List.mem_flatMap.mpr ⟨instruction, hMem, hTarget⟩)

end Function

theorem Module.Lowered.reservesFirst {width : Nat} {module : Module} (h : module.Lowered width)
    {id : FunctionId} {f : Function} (hFound : module.get? id = some f) (hSize : f.blocks.size ≠ 0) :
    f.ReservesFirst := by
  rcases h.cases hFound with hBare | ⟨-, plan, hStaged, -⟩
  · rw [hBare] at hSize
    exact absurd rfl hSize
  · exact hStaged.reservesFirst

/-! ## Variables -/

/-- A function has slots for these variables, each of its own. -/
structure Function.Holds (f : Function) (names : List String) : Prop where
  slots : f.slots.toList = names.map fun name => { ty := .i32, name }
  distinct : names.Nodup

/-- The variables of a body, parameters first. -/
def Analysis.Overview.localNames (overview : Overview) (head : Prototype) (e : Expr) : List String :=
  declaredNames ((overview.declare head).visitBody head e).2.visits

theorem Analysis.Overview.parameters_prefix_localNames (overview : Overview) {head : Prototype}
    (hDistinct : (head.parameters.map Name.text).Nodup) (e : Expr) :
    head.parameters.map Name.text <+: overview.localNames head e := by
  have hParameters : head.parameters.map (fun parameter => Visit.declares parameter.text) =
      (head.parameters.map Name.text).map Visit.declares := (List.map_map ..).symm
  obtain ⟨visits, hVisits, -⟩ := visit_keeps (overview.declare head).shape?
    (head.parameters.map fun parameter => .declares parameter.text) e ⟨_, [], []⟩
    ⟨[], (List.append_nil _).symm, .nil _⟩
  rw [localNames, visitBody, hVisits]
  have hPrefix := declaredNames_prefix (head.parameters.map fun parameter => .declares parameter.text) visits
  rwa [hParameters, declaredNames_map_declares hDistinct, ← hParameters] at hPrefix

namespace Lowering

theorem Scoped.holds {f : Function} {scope : Scope} {names : List String} (h : Scoped (f, scope))
    (hNames : scope.entries.map Prod.fst = names.reverse) (hDistinct : names.Nodup) : f.Holds names := by
  refine ⟨?_, hDistinct⟩
  rw [Scoped, hNames, List.reverse_reverse] at h
  exact h

variable {width : Nat} {state : Lowering} {overview : Overview}

theorem LowersTo.holds {head : Prototype} {e : Expr} {id : FunctionId} {f : Function}
    (h : state.LowersTo head e id f) (hOrderly : state.Orderly width) (hAnalyzed : Analyzed state overview) :
    f.Holds (overview.localNames head e) ∧ head.parameters.map Name.text <+: overview.localNames head e := by
  obtain ⟨declared, events, value, final, hOk, hFinal, rfl⟩ := h
  have hDistinct := hOrderly.valid.nodup_of_accepted hOk
  have hNoted := ((hAnalyzed.accepted hOrderly hOk).lowerBody hDistinct e).1
  have hEdits : Edits (fun _ => True) _ (declared.lowerBody head e).2.view :=
    (hOrderly.valid.prototype hOk).1.lowerBody_edits hDistinct fun _ _ => trivial
  rw [hFinal] at hNoted hEdits
  constructor
  · exact (hEdits.scoped rfl).holds hNoted.order (Analysis.nodup_declaredNames _)
  · exact overview.parameters_prefix_localNames hDistinct e

theorem entry_holds (module : String) {program : List Item} {f : Function}
    (hFound : (lowerProgram module program).1.get? ⟨1⟩ = some f) :
    f.Holds (declaredNames (Overview.start.items program).main) := by
  have hAnalyzed := (start_analyzed module).after_items program (start_orderly (widestItem program) module)
    fun _ => widest_le_widestItem
  have hAllowed : ∀ item ∈ program, ∀ name ∈ item.targets, (fun _ => True) name := fun _ _ _ _ => trivial
  obtain ⟨g, hGet, hEdits⟩ := lowerProgram_entry module hAllowed
  cases hFound.symm.trans hGet
  exact (hEdits.scoped rfl).holds hAnalyzed.main (Analysis.nodup_declaredNames _)

end Lowering

/-- In every function with a body the slots are the variables, parameters first and then the targets of assignments
as they are first met; each is reserved once, at the front of the first block, to which nothing leads.
Hence every frame of a run reserves all its slots before it does anything else, each slot once. -/
theorem lowerProgram_reserves_first (module : String) (program : List Item) :
    (∀ id f, (lowerProgram module program).1.get? id = some f → f.isDeclaration = false →
      f.ReservesFirst ∧ ∃ names, f.Holds names ∧
        (id = ⟨1⟩ ∧ names = declaredNames (Overview.start.items program).main ∨
          ∃ before span head e after, program = before ++ .definition span head e :: after ∧
            ((Lowering.start module).items before).1.LowersTo head e id f ∧
            names = (Overview.start.items before).localNames head e ∧
            head.parameters.map Name.text <+: names)) ∧
      ∀ (σ : Type) (host : Host σ) (limit fuel : Nat) (name : String) (arguments : List Word) (state : σ),
        ∃ journal, Machine.callLogged host (lowerProgram module program).1 limit fuel name arguments state =
            (Machine.call host (lowerProgram module program).1 limit fuel name arguments state, journal) ∧
          journal.Covers (Machine.call host (lowerProgram module program).1 limit fuel name arguments state) ∧
          (∀ log ∈ journal.live, log.Begun (lowerProgram module program).1) ∧
          ∀ log ∈ journal.ended, log.Reserved (lowerProgram module program).1 := by
  have hLowered := lowerProgram_lowered module program
  constructor
  · intro id f hFound hBody
    have hSize : f.blocks.size ≠ 0 := Nat.ne_of_gt (f.isDeclaration_eq_false_iff.mp hBody)
    refine ⟨hLowered.reservesFirst hFound hSize, ?_⟩
    by_cases hId : id = ⟨1⟩
    · subst hId
      exact ⟨_, Lowering.entry_holds module hFound, .inl ⟨rfl, rfl⟩⟩
    · obtain ⟨before, span, head, e, after, hProgram, hLowers⟩ := Lowering.lowerProgram_body hFound hBody hId
      have hWidth : ∀ item ∈ before, item.widest ≤ widestItem program := by
        intro item hItem
        apply widest_le_widestItem
        simp [hProgram, hItem]
      have hStart := Lowering.start_orderly (widestItem program) module
      have hAnalyzed := (Lowering.start_analyzed module).after_items before hStart hWidth
      obtain ⟨hHolds, hPrefix⟩ := hLowers.holds (hStart.items before hWidth).orderly hAnalyzed
      exact ⟨_, hHolds, .inr ⟨before, span, head, e, after, hProgram, hLowers, rfl, hPrefix⟩⟩
  · intro σ host limit fuel name arguments state
    have hModule : ∀ f ∈ (lowerProgram module program).1.functions.values, f.blocks.size ≠ 0 →
        f.ReservesFirst := by
      intro f hMem hSize
      obtain ⟨⟨id, g⟩, hEntry, rfl⟩ := List.mem_map.mp hMem
      exact hLowered.reservesFirst (hLowered.sorted.get?_of_mem hEntry) hSize
    have hFits := Machine.callLogged_fits hModule host limit fuel name arguments state
    have hFst := Machine.callLogged_fst host (lowerProgram module program).1 limit fuel name arguments state
    refine ⟨_, Prod.ext hFst rfl, ?_, hFits.live, hFits.ended⟩
    rw [← hFst]
    exact hFits.covers

/-- A function that assigns to a parameter and, in one of two arms, to another variable. -/
def larger : List Item :=
  let span : Span := ⟨0, 0⟩
  let name : String → Name := fun text => ⟨text, span⟩
  let a := Expr.variable span (name "a")
  let b := Expr.variable span (name "b")
  [.definition span ⟨span, name "larger", [name "b", name "a"]⟩
      (.branch span (.compare span .less a b) [.assign span (name "c") b]
        [.assign span (name "a") (.binary span .add a (.int span 1))]),
    .expression (.assign span (name "x") (.call span (name "larger") [.int span 1, .int span 2]))]

theorem larger_reserves_first : ∃ f, (lowerProgram "m" larger).1.get? ⟨2⟩ = some f ∧
    f.isDeclaration = false ∧ f.slots.toList.map Slot.name = ["b", "a", "c"] ∧ f.ReservesFirst ∧
    ∃ journal, Machine.callLogged standardHost (lowerProgram "m" larger).1 2 20 "main" [] {} =
        (Machine.call standardHost (lowerProgram "m" larger).1 2 20 "main" [] {}, journal) ∧
      journal.ended.map (fun log => (log.function.name, log.ran.countP Instruction.isAlloca)) =
        [("larger", 3), ("main", 1)] ∧
      ∀ log ∈ journal.ended, log.Reserved (lowerProgram "m" larger).1 := by
  have hFound : ((lowerProgram "m" larger).1.get? ⟨2⟩).any (fun f => !f.isDeclaration &&
      decide (f.slots.toList.map Slot.name = ["b", "a", "c"])) = true := by
    decide +kernel
  obtain ⟨f, hGet, hFunction⟩ := (Option.any_eq_true _ _).mp hFound
  rw [Bool.and_eq_true, Bool.not_eq_true', decide_eq_true_iff] at hFunction
  obtain ⟨hFunctions, hRuns⟩ := lowerProgram_reserves_first "m" larger
  obtain ⟨journal, hLogged, -, -, hEnded⟩ := hRuns _ standardHost 2 20 "main" [] {}
  refine ⟨f, hGet, hFunction.1, hFunction.2, (hFunctions ⟨2⟩ f hGet hFunction.1).1, journal, hLogged, ?_, hEnded⟩
  have hJournal : journal =
      (Machine.callLogged standardHost (lowerProgram "m" larger).1 2 20 "main" [] {}).2 := by rw [hLogged]
  rw [hJournal]
  decide +kernel

end Slate
