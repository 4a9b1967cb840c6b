import Slate.Proofs.Lowering.Diagnostics

/-! # Items touch what they own

In every state that a program can reach, an item changes what belongs to it and nothing else. Whether a definition
is kept or withdrawn is told by the tree: by what the analysis finds of its body.
-/

namespace Slate.Lowering
set_option autoImplicit false

open Analysis (Overview)

section Definitions

variable {width : Nat} {state : Lowering} {overview : Overview}

/-- The analysis stays in step with the items of a program. -/
theorem Analyzed.after (program : List Item) {state : Lowering} {overview : Overview}
    (h : Analyzed state overview) (hOrderly : state.Orderly width)
    (hWidth : ∀ item ∈ program, item.widest ≤ width) :
    Analyzed (state.items program).1 (overview.after program) := by
  induction program generalizing state overview with
  | nil => exact h
  | cons first rest ih =>
    rw [List.forall_mem_cons] at hWidth
    exact ih (h.item hOrderly hWidth.1).analyzed (hOrderly.item hWidth.1).orderly hWidth.2

/-- The two ways of a definition that is accepted. -/
theorem Analyzed.definition_cases (h : Analyzed state overview) (hOrderly : state.Orderly width)
    {head : Prototype} (hAccepts : ¬ state.Rejects head) (e : Expr) :
    ∃ id declared events, state.prototype head = .ok (id, declared, events) ∧
      ((overview.bodyValued head e = false ∧ (state.definition head e).1 = { declared with
          assembly := declared.assembly.discard id
            (.bare head.name.text (.ofArity head.parameters.length) .external)
          functions := declared.functions.erase head.name.text }) ∨
      overview.bodyValued head e = true ∧ ∃ value final, declared.lowerBody head e = (some value, final) ∧
        (state.definition head e).1 =
          { declared with assembly := declared.assembly.put id final.draft.function }) := by
  have hValid := hOrderly.valid
  rcases hValid.definition_cases head e with ⟨problem, hError, -⟩ | ⟨id, declared, events, hOk, hCases⟩
  · exact absurd ((hValid.prototype_error_iff head).mp ⟨problem, hError⟩) hAccepts
  · refine ⟨id, declared, events, hOk, ?_⟩
    have hValues := ((h.accepted hOrderly hOk).lowerBody (hValid.nodup_of_accepted hOk) e).2
    rcases hCases with ⟨final, hFinal, hEq⟩ | ⟨value, final, hFinal, hEq⟩
    · rw [hFinal] at hValues
      exact .inl ⟨hValues.symm, congrArg Prod.fst hEq⟩
    · rw [hFinal] at hValues
      exact .inr ⟨hValues.symm, value, final, hFinal, congrArg Prod.fst hEq⟩

theorem Analyzed.exists_of_valued (h : Analyzed state overview) (hOrderly : state.Orderly width)
    {head : Prototype} (hAccepts : ¬ state.Rejects head) {e : Expr} (hWidth : e.widest ≤ width)
    (hValued : overview.bodyValued head e = true) :
    ∃ id f, (state.definition head e).1.functions.find? head.name.text = some id ∧
      (state.definition head e).1.assembly.get? id = some f ∧ f.name = head.name.text ∧
      f.signature = .ofArity head.parameters.length ∧ 0 < f.blocks.size := by
  obtain ⟨id, declared, events, hOk, hCases⟩ := h.definition_cases hOrderly hAccepts e
  rcases hCases with ⟨hMissing, -⟩ | ⟨-, value, final, hFinal, hAfter⟩
  · rw [hMissing] at hValued
    cases hValued
  · exact ⟨id, hOrderly.valid.exists_of_put hWidth hOk hFinal hAfter⟩

theorem Analyzed.withdrawn_of_not_valued (h : Analyzed state overview) (hOrderly : state.Orderly width)
    {head : Prototype} (hAccepts : ¬ state.Rejects head) {e : Expr}
    (hMissing : overview.bodyValued head e = false) : Withdrawn head state (state.definition head e).1 := by
  obtain ⟨id, declared, events, hOk, hCases⟩ := h.definition_cases hOrderly hAccepts e
  rcases hCases with ⟨-, hAfter⟩ | ⟨hValued, -⟩
  · rw [hAfter]
    exact hOrderly.valid.withdrawn hOk
  · rw [hMissing] at hValued
    cases hValued

end Definitions

/-- Items only touch what they own, in every state that a program can reach. A top-level expression
touches the entry function alone. Prototypes and definitions touch the function of their own name alone.
They change nothing at all if they are rejected. A definition that is accepted is kept if its body has a value, and
then it is the same in the finished module, whatever items follow; if its body has no value, it is withdrawn. -/
theorem items_touch_own (module : String) (program : List Item) :
    let state := ((start module).items program).1
    let overview := Overview.start.after program
    (∀ e, KeepsDefined state (state.item (.expression e)).1) ∧
    (∀ span head, KeepsOthers head.name.text state (state.item (.declaration span head)).1) ∧
    (∀ span head e, KeepsOthers head.name.text state (state.item (.definition span head e)).1) ∧
    (∀ span head e, state.Rejects head → ∃ problem,
      state.item (.declaration span head) = (state, [.diagnostic problem]) ∧
      state.item (.definition span head e) = (state, [.diagnostic problem])) ∧
    (∀ span head e, ¬ state.Rejects head → overview.bodyValued head e = true →
      let after := (state.item (.definition span head e)).1
      ∃ id f, after.functions.find? head.name.text = some id ∧ after.assembly.get? id = some f ∧
        f.name = head.name.text ∧ f.signature = .ofArity head.parameters.length ∧ 0 < f.blocks.size ∧
        ∀ more, (after.items more).1.finish.get? id = some f) ∧
    (∀ span head e, ¬ state.Rejects head → overview.bodyValued head e = false →
      Withdrawn head state (state.item (.definition span head e)).1) := by
  intro state overview
  have hProgram : ∀ extra, ∀ item ∈ program, item.widest ≤ max (widestItem program) extra :=
    fun extra item hItem => Nat.le_trans (widest_le_widestItem hItem) (Nat.le_max_left _ _)
  have hOrderly : ∀ extra, state.Orderly (max (widestItem program) extra) :=
    fun extra => ((start_orderly _ module).items program (hProgram extra)).orderly
  have hAnalyzed : Analyzed state overview :=
    (start_analyzed module).after program (start_orderly _ module) (hProgram 0)
  have hValid := fun extra => (hOrderly extra).valid
  refine ⟨(hValid 0).topLevel_keepsDefined, ?_, ?_, ?_, ?_, ?_⟩
  · intro span head
    rw [item]
    split
    · exact .refl _ _
    · rename_i hOk
      exact (hValid 0).prototype_keepsOthers hOk
  · intro span head e
    exact (hValid e.widest).definition_keepsOthers head (Nat.le_max_right _ _)
  · intro span head e hRejects
    exact (hValid 0).item_of_rejects hRejects span e
  · intro span head e hAccepts hValued after
    have hRest : ∀ more, after.Orderly (max (widestItem program) (max e.widest (widestItem more))) :=
      fun more => ((hOrderly _).definition head
        (Nat.le_trans (Nat.le_max_left _ _) (Nat.le_max_right _ _))).orderly
    obtain ⟨id, f, hTable, hGet, hName, hSignature, hBody⟩ :=
      hAnalyzed.exists_of_valued (hOrderly e.widest) hAccepts (Nat.le_max_right _ _) hValued
    refine ⟨id, f, hTable, hGet, hName, hSignature, hBody, ?_⟩
    intro more
    refine (hRest more).finish_get?_of_body more ?_ hGet ((hRest more).valid.table _ id hTable).1 hBody
    intro item hItem
    have := widest_le_widestItem hItem
    omega
  · intro span head e hAccepts hMissing
    exact hAnalyzed.withdrawn_of_not_valued (hOrderly 0) hAccepts hMissing

end Slate.Lowering
