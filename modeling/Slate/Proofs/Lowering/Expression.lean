import Slate.Proofs.Lowering.Control

/-! # Lowering keeps functions sound

Lowering an expression takes a ready body to a ready body and gives a value, if any, that is written at
the end of the block it arrives in: `expression_leads`, by induction on the expression.
-/

namespace Slate

set_option autoImplicit false

mutual

/-- The most arguments that a call in an expression is written with. -/
def Expr.widest : Expr → Nat
  | .int .. | .variable .. => 0
  | .binary _ _ lhs rhs | .compare _ _ lhs rhs => max lhs.widest rhs.widest
  | .assign _ _ value => value.widest
  | .branch _ condition positive negative =>
    max condition.widest (max (widestOf positive) (widestOf negative))
  | .loop _ initializer condition step body =>
    max (max initializer.widest condition.widest) (max step.widest (widestOf body))
  | .call _ _ arguments => max arguments.length (widestOf arguments)

def widestOf : List Expr → Nat
  | [] => 0
  | first :: rest => max first.widest (widestOf rest)

end

namespace Lowering

open Draft (Usable)

/-- What names stand for in calls agrees with the signatures of the context. -/
def Callees.Agree (context : Context) (callees : Callees) : Prop :=
  ∀ name callee, callees name = some callee →
    context.signature? callee.id = some callee.signature

variable {context : Context} {callees : Callees}

theorem valued_word (plan : Plan) (body : Body) (value : Word) :
    Valued plan body (some (word value)) := by
  intro operand hOperand
  cases hOperand
  exact ⟨.i32, Draft.usable_const plan _ _⟩

theorem valued_none (plan : Plan) (body : Body) : Valued plan body none :=
  fun _ hOperand => by cases hOperand

theorem Valued.moves {plan plan' : Plan} {body body' : Body} {value : Option Operand}
    (h : Valued plan body value) (hMoves : Body.Moves context plan body plan' body') :
    Valued plan' body' value := by
  intro operand hOperand
  obtain ⟨ty, hUsable⟩ := h operand hOperand
  exact ⟨ty, hUsable.flow hMoves.flow⟩

mutual

theorem expression_leads (hCallees : callees.Agree context) (e : Expr)
    (hWidth : e.widest ≤ context.width) (plan : Plan) (body : Body) (h : body.Ready context plan) :
    Leads context plan body (expression callees e) Valued := by
  cases e with
  | int span value =>
    rw [expression]
    exact .pure h (valued_word plan body value)
  | binary span op lhs rhs =>
    rw [Expr.widest, max_le_iff] at hWidth
    rw [expression]
    refine .bind h (expression_leads hCallees lhs hWidth.1 plan body h) ?_
    intro plan₁ body₁ left hLeft hLeftValue
    refine .bind hLeft.ready (expression_leads hCallees rhs hWidth.2 plan₁ body₁ hLeft.ready) ?_
    intro plan₂ body₂ right hRight hRightValue
    refine .bind hRight.ready (wordPair_leads hRight.ready (hLeftValue.moves hRight) hRightValue) ?_
    intro plan₃ body₃ pair hPair hValues
    cases pair with
    | none => exact .pure hPair.ready (valued_none _ _)
    | some pair =>
      obtain ⟨hFirst, hSecond⟩ := hValues pair.1 pair.2 rfl
      exact leads_some (arith_stays hPair.ready op hFirst hSecond)
  | compare span op lhs rhs =>
    rw [Expr.widest, max_le_iff] at hWidth
    rw [expression]
    refine .bind h (expression_leads hCallees lhs hWidth.1 plan body h) ?_
    intro plan₁ body₁ left hLeft hLeftValue
    refine .bind hLeft.ready (expression_leads hCallees rhs hWidth.2 plan₁ body₁ hLeft.ready) ?_
    intro plan₂ body₂ right hRight hRightValue
    refine .bind hRight.ready (wordPair_leads hRight.ready (hLeftValue.moves hRight) hRightValue) ?_
    intro plan₃ body₃ pair hPair hValues
    cases pair with
    | none => exact .pure hPair.ready (valued_none _ _)
    | some pair =>
      obtain ⟨hFirst, hSecond⟩ := hValues pair.1 pair.2 rfl
      exact leads_some (compare_stays hPair.ready op.predicate hFirst hSecond)
  | «variable» span name =>
    rw [expression]
    exact readVariable_leads h name
  | assign span target value =>
    rw [Expr.widest] at hWidth
    rw [expression]
    refine .bind h (slotFor_leads h target.text) ?_
    intro plan₁ body₁ slot hSlot hFound
    refine .bind hSlot.ready (expression_leads hCallees value hWidth plan₁ body₁ hSlot.ready) ?_
    intro plan₂ body₂ result hMoves hResult
    cases result with
    | none => exact .pure hMoves.ready (valued_none _ _)
    | some result =>
      obtain ⟨ty, hUsable⟩ := hResult result rfl
      refine .bind hMoves.ready (toWord_leads hMoves.ready hUsable) ?_
      intro plan₃ body₃ stored hWord hStored
      have hRow := hWord.ready.scope _ _ (hWord.scope _ _ (hMoves.scope _ _ hFound))
      have hStore := store_stays hWord.ready hRow rfl hStored
      refine ⟨plan₃, hStore.toMoves, fun operand hOperand => ?_⟩
      cases hOperand
      exact ⟨.i32, hStored.flow hStore.flow⟩
  | branch span condition positive negative =>
    simp only [Expr.widest, max_le_iff] at hWidth
    rw [expression_branch]
    refine .bind h (expression_leads hCallees condition hWidth.1 plan body h) ?_
    intro plan₁ body₁ value hMoves hValue
    cases value with
    | none => exact .pure hMoves.ready (valued_none _ _)
    | some value =>
      obtain ⟨ty, hUsable⟩ := hValue value rfl
      refine .bind hMoves.ready (isTruthy_leads hMoves.ready hUsable) ?_
      intro plan₂ body₂ test hMoves' hTest
      exact conditional_leads hMoves'.ready
        (fun plan body h => arm_leads hCallees positive hWidth.2.1 _ plan body h (valued_word _ _ _))
        (fun plan body h => arm_leads hCallees negative hWidth.2.2 _ plan body h (valued_word _ _ _)) hTest
  | loop span initializer condition step inner =>
    simp only [Expr.widest, max_le_iff] at hWidth
    rw [expression_loop]
    refine .bind h (expression_leads hCallees initializer hWidth.1.1 plan body h) ?_
    intro plan₁ body₁ value hMoves hValue
    refine repeated_leads hMoves.ready (expression_leads hCallees condition hWidth.1.2) ?_
    intro plan body h
    refine .bind h (arm_leads hCallees inner hWidth.2.2 none plan body h (valued_none _ _)) ?_
    intro plan₁ body₁ _ hMoves _
    refine .bind hMoves.ready (expression_leads hCallees step hWidth.2.1 plan₁ body₁ hMoves.ready) ?_
    intro plan₂ body₂ _ hMoves' _
    exact .pure hMoves'.ready trivial
  | call span callee arguments =>
    rw [Expr.widest, max_le_iff] at hWidth
    rw [expression]
    cases hTarget : callees callee.text with
    | none =>
      refine .bind h (report_leads h _ _) ?_
      exact fun _ _ _ hMoves _ => .pure hMoves.ready (valued_none _ _)
    | some target =>
      refine .bind h (words_leads hCallees arguments hWidth.2 plan body h) ?_
      intro plan₁ body₁ values hMoves hValues
      cases values with
      | none => exact .pure hMoves.ready (valued_none _ _)
      | some values =>
        obtain ⟨hLength, hUsable⟩ := hValues values rfl
        exact emitCall_leads hMoves.ready callee (hCallees _ _ hTarget) (hLength ▸ hWidth.1) hUsable

theorem arm_leads (hCallees : callees.Agree context) (es : List Expr)
    (hWidth : widestOf es ≤ context.width) (value : Option Operand) (plan : Plan) (body : Body)
    (h : body.Ready context plan) (hValue : Valued plan body value) :
    Leads context plan body (arm callees value es) Valued := by
  cases es with
  | nil =>
    rw [arm]
    exact .pure h hValue
  | cons first rest =>
    rw [widestOf, max_le_iff] at hWidth
    rw [arm]
    refine .bind h (expression_leads hCallees first hWidth.1 plan body h) ?_
    intro plan₁ body₁ result hMoves hResult
    exact arm_leads hCallees rest hWidth.2 result plan₁ body₁ hMoves.ready hResult

theorem words_leads (hCallees : callees.Agree context) (es : List Expr)
    (hWidth : widestOf es ≤ context.width) (plan : Plan) (body : Body)
    (h : body.Ready context plan) :
    Leads context plan body (words callees es) fun plan' body' values =>
      ∀ operands, values = some operands → operands.length = es.length ∧
        ∀ operand ∈ operands, Usable plan' body'.draft operand .i32 := by
  cases es with
  | nil =>
    rw [words]
    refine .pure h fun operands hOperands => ?_
    cases hOperands
    exact ⟨rfl, fun _ hMem => by cases hMem⟩
  | cons first rest =>
    rw [widestOf, max_le_iff] at hWidth
    rw [words]
    refine .bind h (expression_leads hCallees first hWidth.1 plan body h) ?_
    intro plan₁ body₁ result hMoves hResult
    cases result with
    | none =>
      refine .bind hMoves.ready (words_leads hCallees rest hWidth.2 plan₁ body₁ hMoves.ready) ?_
      exact fun _ _ _ hMoves' _ => .pure hMoves'.ready fun _ hNone => by cases hNone
    | some result =>
      obtain ⟨ty, hUsable⟩ := hResult result rfl
      refine .bind hMoves.ready (toWord_leads hMoves.ready hUsable) ?_
      intro plan₂ body₂ value hWord hValue
      refine .bind hWord.ready (words_leads hCallees rest hWidth.2 plan₂ body₂ hWord.ready) ?_
      intro plan₃ body₃ values hRest hValues
      cases values with
      | none => exact .pure hRest.ready fun _ hNone => by cases hNone
      | some values =>
        obtain ⟨hLength, hUsable⟩ := hValues values rfl
        refine .pure hRest.ready fun operands hOperands => ?_
        cases hOperands
        refine ⟨congrArg Nat.succ hLength, fun operand hMem => ?_⟩
        rcases List.mem_cons.mp hMem with rfl | hMem
        · exact hValue.flow hRest.flow
        · exact hUsable operand hMem

end

end Lowering
end Slate
