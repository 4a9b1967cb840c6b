import Slate.Proofs.Simulation.Control

/-! # Lowered expressions run as they are evaluated

By induction on the expression: a frame that stands where the lowering of an expression starts follows the
evaluation of that expression, given that calls follow what their names invoke.
-/

namespace Slate
set_option autoImplicit false

open Lowering Evaluation Machine Activation
open Draft (Usable)
open Body (Moves Stays)

namespace Simulates

variable {α β γ δ : Type} {a : Activation} {context : Context} {plan : Plan} {body : Body}
  {pre : Frame → Prop}

theorem withMoves {action : Lower α} {evaluation : Eval β} {lead : Plan → Body → α → Prop}
    {post : Body → α → β → Frame → Prop}
    (h : Simulates a context plan body pre action evaluation lead post) :
    Simulates a context plan body pre action evaluation
      (fun plan' body' value => Moves context plan body plan' body' ∧ lead plan' body' value) post := by
  obtain ⟨⟨plan', hMoves, hLead⟩, hFollows⟩ := h
  exact ⟨⟨plan', hMoves, hMoves, hLead⟩, hFollows⟩

/-- An action leads to the body and the value that it gives. -/
theorem exactly {action : Lower α} {evaluation : Eval β} {lead : Plan → Body → α → Prop}
    {post : Body → α → β → Frame → Prop}
    (h : Simulates a context plan body pre action evaluation lead post) :
    Simulates a context plan body pre action evaluation
      (fun plan' body' value => (value, body') = action body ∧ lead plan' body' value) post := by
  obtain ⟨⟨plan', hMoves, hLead⟩, hFollows⟩ := h
  exact ⟨⟨plan', hMoves, rfl, hLead⟩, hFollows⟩

/-- An action goes on in one way with a value and in another without, and so does the evaluation. -/
theorem bindOption [Inhabited β] (h : body.Ready context plan) {action : Lower (Option α)}
    {evaluation : Eval (Option β)} {lead : Plan → Body → Option α → Prop}
    {post : Body → Option α → Option β → Frame → Prop}
    (hFirst : Simulates a context plan body pre action evaluation lead post)
    (hBoth : ∀ body value result frame, post body value result frame → value.isSome = result.isSome)
    {next : Option α → Lower γ} {evaluation' : Option β → Eval δ}
    {lead' : Plan → Body → γ → Prop} {post' : Body → γ → δ → Frame → Prop}
    (hNone : ∀ plan₁ body₁ (pre₁ : Frame → Prop), Moves context plan body plan₁ body₁ →
      lead plan₁ body₁ none →
      Simulates a context plan₁ body₁ pre₁ (next none) (evaluation' none) lead' post')
    (hSome : ∀ plan₁ body₁ value result (pre₁ : Frame → Prop), Moves context plan body plan₁ body₁ →
      lead plan₁ body₁ (some value) →
      (∀ frame, pre₁ frame → ∃ start, pre start ∧ start.Keeps body.draft.function.registers.size frame ∧
        post body₁ (some value) (some result) frame) →
      Simulates a context plan₁ body₁ pre₁ (next (some value)) (evaluation' (some result)) lead' post') :
    Simulates a context plan body pre (action >>= next) (evaluation >>= evaluation') lead' post' := by
  refine .bind h hFirst fun plan₁ body₁ value result hMoves hLead => ?_
  match value, result, hLead with
  | none, none, hLead => exact hNone plan₁ body₁ _ hMoves hLead
  | none, some word, hLead =>
    refine (hNone plan₁ body₁ (fun _ => False) hMoves hLead).vacuous ?_
    rintro frame ⟨_, _, _, hPost⟩
    exact Bool.noConfusion (hBoth _ _ _ _ hPost)
  | some value, none, hLead =>
    refine (hSome plan₁ body₁ value default (fun _ => False) hMoves hLead fun _ => False.elim).vacuous ?_
    rintro frame ⟨_, _, _, hPost⟩
    exact Bool.noConfusion (hBoth _ _ _ _ hPost)
  | some value, some result, hLead =>
    exact hSome plan₁ body₁ value result _ hMoves hLead fun frame hFrame => hFrame

end Simulates

theorem Frame.yields_word (frame : Frame) (f : Function) (word : Word) :
    frame.Yields f (some (Lowering.word word)) (some word) :=
  frame.denotes_const f (.int word)

theorem Yielding.isSome_eq (body : Body) (value : Option Operand) (result : Option Word) (frame : Frame)
    (h : Yielding body value result frame) : value.isSome = result.isSome := by
  match value, result, h with
  | some _, some _, _ | none, none, _ => rfl

/-- What lowering takes names for in calls is what evaluation invokes. -/
structure Activation.Serves (a : Activation) (context : Context) (callees : Callees)
    (invoke : String → List Word → Eval (Option Word)) : Prop where
  agree : callees.Agree context
  answers : ∀ name callee, callees name = some callee → a.Answers invoke name callee
  result : ∀ name callee, callees name = some callee →
    callee.signature.result = if name = "puts" then .void else .i32

/-- Values of lowering stand for words of evaluation, if there are any. -/
def Frame.YieldsAll (frame : Frame) (f : Function) :
    Option (List Operand) → Option (List Word) → Prop
  | some operands, some words => List.Forall₂ (frame.Denotes f) operands words
  | none, none => True
  | _, _ => False

theorem Frame.YieldsAll.isSome_eq {frame : Frame} {f : Function} {operands : Option (List Operand)}
    {words : Option (List Word)} (h : frame.YieldsAll f operands words) :
    operands.isSome = words.isSome := by
  match operands, words, h with
  | some _, some _, _ | none, none, _ => rfl

/-- The values of a list of expressions, which are there as the form of the list says. -/
def ListedAs (es : List Expr) (plan : Plan) (body : Body) (values : Option (List Operand)) : Prop :=
  (∀ operands, values = some operands → operands.length = es.length ∧
    ∀ operand ∈ operands, Usable plan body.draft operand .i32) ∧
  (body.diagnostics = [] → values.isSome = allValued es)

/-- Without diagnostics at the end there were none before. -/
theorem Lowering.Body.Moves.clean {context : Context} {plan plan' : Plan} {body body' : Body}
    (h : Moves context plan body plan' body') (hClean : body'.diagnostics = []) :
    body.diagnostics = [] := by
  have hPrefix := h.diagnostics
  rw [hClean] at hPrefix
  exact List.prefix_nil.mp hPrefix

theorem Evaluation.eval_branch (invoke : String → List Word → Eval (Option Word)) (rounds : Nat)
    (span : Span) (condition : Expr) (positive negative : List Expr) :
    eval invoke rounds (.branch span condition positive negative) =
      eval invoke rounds condition >>= fun
        | none => pure none
        | some word => (if word ≠ 0 then Evaluation.sequence invoke rounds (some 0) positive
            else Evaluation.sequence invoke rounds (some 0) negative) >>= fun result =>
          pure (if lastValued true positive && lastValued true negative then result else none) := by
  rw [eval]
  congr 1
  funext value
  cases value with
  | none => rfl
  | some word =>
    dsimp only
    split <;> rfl

section Expressions

variable {a : Activation} (ha : a.Fit) {context : Context} {callees : Callees}
  {invoke : String → List Word → Eval (Option Word)} (hServes : a.Serves context callees invoke)
  {rounds : Nat} (hFuel : a.fuel ≤ rounds)

/-- Two operands are lowered and combined as they are evaluated and combined. -/
theorem operands_simulate {lhs rhs : Lower (Option Operand)} {left right : Eval (Option Word)} {v w : Bool}
    (hLeft : ∀ plan body pre, body.Ready context plan →
      Simulates a context plan body pre lhs left (ValuedAs v) Yielding)
    (hRight : ∀ plan body pre, body.Ready context plan →
      Simulates a context plan body pre rhs right (ValuedAs w) Yielding)
    (emit : Operand → Operand → Lower Operand) (combine : Word → Word → Word)
    (hEmit : ∀ {plan body} {pre : Frame → Prop} {first second x y}, body.Ready context plan →
      Usable plan body.draft first .i32 → Usable plan body.draft second .i32 →
      (∀ frame, pre frame → frame.Denotes body.draft.function first x ∧
        frame.Denotes body.draft.function second y) →
      Simulates a context plan body pre (emit first second) (Pure.pure ())
        (fun plan' body' operand => ∃ ty, Usable plan' body'.draft operand ty)
        (fun body' operand _ frame =>
          frame.Denotes body'.draft.function operand (combine x y)))
    (plan : Plan) (body : Body) (pre : Frame → Prop) (h : body.Ready context plan) :
    Simulates a context plan body pre
      (lhs >>= fun l => rhs >>= fun r => wordPair l r >>= fun
        | none => Pure.pure none
        | some (first, second) => emit first second >>= fun value => Pure.pure (some value))
      (left >>= fun x => right >>= fun y =>
        Pure.pure (x.bind fun x => y.map fun y => combine x y)) (ValuedAs (v && w)) Yielding := by
  refine .bind h (hLeft plan body pre h) ?_
  intro plan₁ body₁ l x hMoves hl
  refine .bind hMoves.ready (hRight plan₁ body₁ _ hMoves.ready) ?_
  intro plan₂ body₂ r y hMoves' hr
  refine (pair_simulates hMoves'.ready (hl.1.moves hMoves') hr.1 ?_ emit combine hEmit).withMoves.post_mono
    ?_ fun _ _ _ _ hYields => hYields
  · rintro frame ⟨middle, ⟨start, -, -, hLeftYields⟩, hKeeps, hRightYields⟩
    exact ⟨Frame.Yields.keeps hLeftYields hKeeps hMoves'.flow.extends_.grows, hRightYields⟩
  · rintro plan₃ body₃ value ⟨hMoves'', hValued, hSome⟩
    refine ⟨hValued, fun hClean => ?_⟩
    have hCleanRight := hMoves''.clean hClean
    rw [hSome, hl.2 (hMoves'.clean hCleanRight), hr.2 hCleanRight]

include ha hServes hFuel

set_option linter.unusedSectionVars false in

mutual

theorem expression_simulates (e : Expr) (hWidth : e.widest ≤ context.width) (plan : Plan) (body : Body)
    (pre : Frame → Prop) (h : body.Ready context plan) :
    Simulates a context plan body pre (expression callees e) (eval invoke rounds e)
      (ValuedAs e.valued) Yielding := by
  cases e with
  | int span value =>
    rw [expression, eval, Expr.valued]
    exact .pure h ⟨valued_word plan body value, fun _ => rfl⟩ fun frame _ => frame.denotes_const _ _
  | binary span op lhs rhs =>
    rw [Expr.widest, max_le_iff] at hWidth
    rw [expression, eval, Expr.valued]
    refine operands_simulate (expression_simulates lhs hWidth.1) (expression_simulates rhs hWidth.2)
      (fun first second => draft (Draft.arith op first second)) (compute op) ?_ plan body pre h
    intro plan body pre first second x y h hFirst hSecond hPre
    rw [compute_eq_apply]
    exact (arith_simulates h op hFirst hSecond hPre).post_mono (fun _ _ _ hUsable => ⟨_, hUsable⟩)
      fun _ _ _ _ hReads => ⟨_, hReads, rfl⟩
  | compare span op lhs rhs =>
    rw [Expr.widest, max_le_iff] at hWidth
    rw [expression, eval, Expr.valued]
    refine operands_simulate (expression_simulates lhs hWidth.1) (expression_simulates rhs hWidth.2)
      (fun first second => draft (Draft.compare op.predicate first second))
      (fun x y => if holds op x.toInt y.toInt then 1 else 0) ?_ plan body pre h
    intro plan body pre first second x y h hFirst hSecond hPre
    rw [holds_eq_apply]
    exact (compare_simulates h op.predicate hFirst hSecond hPre).post_mono
      (fun _ _ _ hUsable => ⟨_, hUsable⟩) fun _ _ _ _ hReads => ⟨_, hReads, rfl⟩
  | «variable» span name =>
    rw [expression, eval, Expr.valued]
    exact readVariable_simulates h name
  | assign span target value =>
    rw [Expr.widest] at hWidth
    rw [expression, eval, Expr.valued]
    refine .step h (slotFor_simulates h target.text) ?_
    intro plan₁ body₁ slot hMoves hSlot
    refine .bindOption hMoves.ready (expression_simulates value hWidth plan₁ body₁ _ hMoves.ready)
      Yielding.isSome_eq ?_ ?_
    · intro plan₂ body₂ pre₂ hMoves' hMissing
      exact .pure hMoves'.ready hMissing fun _ _ => trivial
    · intro plan₂ body₂ operand word pre₂ hMoves' hThere hPre
      obtain ⟨ty, hUsable⟩ := hThere.1 operand rfl
      have hWord : ∀ frame, pre₂ frame → frame.Denotes body₂.draft.function operand word :=
        fun frame hFrame => (hPre frame hFrame).choose_spec.2.2
      refine .step hMoves'.ready (toWord_simulates hMoves'.ready hUsable hWord) ?_
      intro plan₃ body₃ stored hWidens hStored
      have hFound := hWidens.scope _ _ (hMoves'.scope _ _ hSlot)
      refine .bind hWidens.ready (store_simulates hWidens.ready ha hFound hStored ?_) ?_
      · rintro frame ⟨_, _, _, hWord⟩
        exact hWord
      intro plan₄ body₄ _ _ hStores hUsable'
      refine .pure hStores.ready ⟨fun found hFound => ?_, fun hClean => ?_⟩ ?_
      · cases hFound
        exact ⟨_, hUsable'⟩
      · exact hThere.2 (hWidens.clean (hStores.clean hClean))
      · rintro frame ⟨_, _, _, hWord⟩
        exact hWord
  | branch span condition positive negative =>
    simp only [Expr.widest, max_le_iff] at hWidth
    rw [expression_branch, eval_branch, Expr.valued]
    refine .bindOption h (expression_simulates condition hWidth.1 plan body pre h)
      Yielding.isSome_eq ?_ ?_
    · intro plan₁ body₁ pre₁ hMoves hMissing
      exact .pure hMoves.ready ⟨valued_none _ _, fun hClean => by rw [← hMissing.2 hClean]; rfl⟩
        fun _ _ => trivial
    · intro plan₁ body₁ operand word pre₁ hMoves hThere hPre
      obtain ⟨ty, hUsable⟩ := hThere.1 operand rfl
      have hWord : ∀ frame, pre₁ frame → frame.Denotes body₁.draft.function operand word :=
        fun frame hFrame => (hPre frame hFrame).choose_spec.2.2
      refine .step hMoves.ready (isTruthy_simulates hMoves.ready hUsable hWord) ?_
      intro plan₂ body₂ test hMoves' hTest
      refine (conditional_simulates ha hMoves'.ready
        (fun plan body h => arm_simulates positive hWidth.2.1 plan body _ h
          ⟨valued_word plan body 0, fun _ => rfl⟩ fun frame _ => frame.yields_word _ 0)
        (fun plan body h => arm_simulates negative hWidth.2.2 plan body _ h
          ⟨valued_word plan body 0, fun _ => rfl⟩ fun frame _ => frame.yields_word _ 0)
        hTest ?_).withMoves.post_mono ?_ fun _ _ _ _ hYields => hYields
      · rintro frame ⟨_, _, _, hReads⟩
        exact hReads
      · rintro plan₃ body₃ value ⟨hMoves'', hValued, hSome⟩
        refine ⟨hValued, fun hClean => ?_⟩
        rw [hSome hClean, ← hThere.2 (hMoves'.clean (hMoves''.clean hClean))]
        exact (Bool.true_and _).symm
  | loop span initializer condition step inner =>
    simp only [Expr.widest, max_le_iff] at hWidth
    rw [expression_loop, eval, Expr.valued]
    refine .bind h (expression_simulates initializer hWidth.1.1 plan body pre h) ?_
    intro plan₁ body₁ _ _ hMoves _
    refine repeated_simulates ha hMoves.ready hFuel
      (fun plan body h => expression_simulates condition hWidth.1.2 plan body _ h) ?_
    intro plan body h
    refine .bind h (arm_simulates inner hWidth.2.2 plan body _ h
      ⟨valued_none plan body, fun _ => rfl⟩ ?_) ?_
    · exact fun _ _ => trivial
    intro plan₂ body₂ _ _ hMoves' _
    refine .bind hMoves'.ready (expression_simulates step hWidth.2.1 plan₂ body₂ _ hMoves'.ready) ?_
    intro plan₃ body₃ _ _ hMoves'' _
    exact .pure hMoves''.ready trivial fun _ _ => trivial
  | call span callee arguments =>
    rw [Expr.widest, max_le_iff] at hWidth
    rw [expression, eval, Expr.valued]
    cases hTarget : callees callee.text with
    | none =>
      refine .reported (.bind h (report_leads h _ _) ?_) (diagnostics_report_ne_nil _ _ _) _
      exact fun _ _ _ hMoves _ => .pure hMoves.ready (valued_none _ _)
    | some target =>
      refine .bindOption h (words_simulates arguments hWidth.2 plan body pre h)
        (fun _ _ _ _ hYields => hYields.isSome_eq) ?_ ?_
      · intro plan₁ body₁ pre₁ hMoves hMissing
        refine .pure hMoves.ready ⟨valued_none _ _, fun hClean => ?_⟩ fun _ _ => trivial
        rw [← hMissing.2 hClean]
        exact (Bool.and_false _).symm
      · intro plan₁ body₁ operands words pre₁ hMoves hListed hPre
        obtain ⟨hLength, hUsable⟩ := hListed.1 operands rfl
        refine (emitCall_simulates hMoves.ready callee (hServes.answers _ _ hTarget)
          (hServes.result _ _ hTarget) (hServes.agree _ _ hTarget) (hLength ▸ hWidth.1) hUsable
          fun frame hFrame => (hPre frame hFrame).choose_spec.2.2).withMoves.post_mono ?_
          fun _ _ _ _ hYields => hYields
        rintro plan₂ body₂ value ⟨hMoves', hValued, hSome⟩
        refine ⟨hValued, fun hClean => ?_⟩
        rw [hSome hClean, ← hListed.2 (hMoves'.clean hClean), Option.isSome_some, Bool.and_true]

theorem arm_simulates (es : List Expr) (hWidth : widestOf es ≤ context.width) {value : Option Operand}
    {word : Option Word} {v : Bool} (plan : Plan) (body : Body) (pre : Frame → Prop)
    (h : body.Ready context plan) (hValue : ValuedAs v plan body value)
    (hPre : ∀ frame, pre frame → frame.Yields body.draft.function value word) :
    Simulates a context plan body pre (arm callees value es) (Evaluation.sequence invoke rounds word es)
      (ValuedAs (lastValued v es)) Yielding := by
  cases es with
  | nil =>
    rw [arm, Evaluation.sequence, lastValued]
    exact .pure h hValue hPre
  | cons first rest =>
    rw [widestOf, max_le_iff] at hWidth
    rw [arm, Evaluation.sequence, lastValued]
    refine .bind h (expression_simulates first hWidth.1 plan body pre h) ?_
    intro plan₁ body₁ result found hMoves hResult
    refine arm_simulates rest hWidth.2 plan₁ body₁ _ hMoves.ready hResult ?_
    rintro frame ⟨_, _, _, hYields⟩
    exact hYields

theorem words_simulates (es : List Expr) (hWidth : widestOf es ≤ context.width) (plan : Plan)
    (body : Body) (pre : Frame → Prop) (h : body.Ready context plan) :
    Simulates a context plan body pre (words callees es) (values invoke rounds es) (ListedAs es)
      (fun body' operands words frame => frame.YieldsAll body'.draft.function operands words) := by
  cases es with
  | nil =>
    rw [words, values]
    refine .pure h ⟨fun operands hOperands => ?_, fun _ => by rw [allValued]; rfl⟩ fun frame _ => .nil
    cases hOperands
    exact ⟨rfl, fun _ hMem => by cases hMem⟩
  | cons first rest =>
    rw [widestOf, max_le_iff] at hWidth
    rw [words, values]
    refine .bindOption h (expression_simulates first hWidth.1 plan body pre h) Yielding.isSome_eq ?_ ?_
    · intro plan₁ body₁ pre₁ hMoves hMissing
      refine .bind hMoves.ready (words_simulates rest hWidth.2 plan₁ body₁ pre₁ hMoves.ready) ?_
      intro plan₂ body₂ _ _ hMoves' _
      refine .pure hMoves'.ready ⟨fun _ hNone => (by cases hNone), fun hClean => ?_⟩ fun _ _ => trivial
      rw [allValued, ← hMissing.2 (hMoves'.clean hClean)]
      rfl
    · intro plan₁ body₁ operand word pre₁ hMoves hThere hPre
      obtain ⟨ty, hUsable⟩ := hThere.1 operand rfl
      have hWord : ∀ frame, pre₁ frame → frame.Denotes body₁.draft.function operand word :=
        fun frame hFrame => (hPre frame hFrame).choose_spec.2.2
      refine .step hMoves.ready (toWord_simulates hMoves.ready hUsable hWord) ?_
      intro plan₂ body₂ value hMoves' hValue
      refine .bindOption hMoves'.ready (words_simulates rest hWidth.2 plan₂ body₂ _ hMoves'.ready)
        (fun _ _ _ _ hYields => hYields.isSome_eq) ?_ ?_
      · intro plan₃ body₃ pre₃ hMoves'' hMissing
        refine .pure hMoves''.ready ⟨fun _ hNone => (by cases hNone), fun hClean => ?_⟩
          fun _ _ => trivial
        rw [allValued, ← hMissing.2 hClean, Option.isSome_none, Bool.and_false]
      · intro plan₃ body₃ operands words pre₃ hMoves'' hListed hPre'
        obtain ⟨hLength, hAll⟩ := hListed.1 operands rfl
        refine .pure hMoves''.ready ⟨fun found hFound => ?_, fun hClean => ?_⟩ fun frame hFrame => ?_
        · cases hFound
          refine ⟨congrArg Nat.succ hLength, fun operand hMem => ?_⟩
          rcases List.mem_cons.mp hMem with rfl | hMem
          · exact hValue.flow hMoves''.flow
          · exact hAll operand hMem
        · rw [allValued, ← hListed.2 hClean, ← hThere.2 (hMoves'.clean (hMoves''.clean hClean))]
          rfl
        · obtain ⟨start, ⟨_, _, _, hDenotes⟩, hKeeps, hRest⟩ := hPre' frame hFrame
          exact .cons (hDenotes.keeps hKeeps hMoves''.flow.extends_.grows) hRest

end

end Expressions

end Slate
