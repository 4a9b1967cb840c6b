import Slate.Machine
import Slate.Proofs.Evaluation

/-! # Runs that follow an evaluation

A run follows an evaluation if it comes to a state that fits the value where the evaluation gives one, halts
with the same error and output where the evaluation fails, and goes on for as many steps as there was
fuel where the evaluation ran out of it.
-/

namespace Slate
set_option autoImplicit false

namespace Machine

variable {σ : Type} (host : Host σ) (module : Module) (limit : Nat)

theorem advance_halted (n : Nat) (result : Except Stop (Option Word)) (state : σ) :
    advance host module limit n (.halted result state) = .halted result state := by
  cases n <;> rfl

theorem advance_zero (p : Progress σ) : advance host module limit 0 p = p := by
  cases p <;> rfl

theorem advance_add (m n : Nat) (p : Progress σ) : advance host module limit (m + n) p =
    advance host module limit n (advance host module limit m p) := by
  induction m generalizing p with
  | zero => rw [Nat.zero_add, advance_zero]
  | succ m ih =>
    cases p with
    | halted result state => rw [advance_halted, advance_halted, advance_halted]
    | running frame callers state =>
      rw [Nat.succ_add, advance, advance]
      exact ih _

theorem advance_one (frame : Frame) (callers : Callers) (state : σ) :
    advance host module limit 1 (.running frame callers state) =
      step host module limit frame callers state := by
  rw [advance, advance_zero]

variable {host module limit}

theorem advance_of_le {m n : Nat} {p : Progress σ} {result : Except Stop (Option Word)} {state : σ}
    (h : advance host module limit m p = .halted result state) (hLe : m ≤ n) :
    advance host module limit n p = .halted result state := by
  obtain ⟨rest, rfl⟩ := Nat.exists_eq_add_of_le hLe
  rw [advance_add, h, advance_halted]

theorem halted_unique {m n : Nat} {p : Progress σ} {result result' : Except Stop (Option Word)}
    {state state' : σ} (h : advance host module limit m p = .halted result state)
    (h' : advance host module limit n p = .halted result' state') :
    result = result' ∧ state = state' := by
  rcases Nat.le_total m n with hLe | hLe
  · have hSame := advance_of_le h hLe
    rw [h'] at hSame
    cases hSame
    exact ⟨rfl, rfl⟩
  · have hSame := advance_of_le h' hLe
    rw [h] at hSame
    cases hSame
    exact ⟨rfl, rfl⟩

end Machine

open Machine Evaluation

namespace Evaluation

variable {α β : Type}

theorem bind_apply (action : Eval α) (next : α → Eval β) (store : Store) :
    (action >>= next) store = match action store with
      | (.ok a, after) => next a after
      | (.error halt, after) => (.error halt, after) := by
  change ExceptT.bindCont next (action store).1 (action store).2 = _
  rcases action store with ⟨_ | _, after⟩ <;> rfl

end Evaluation

def Follows {α : Type} (module : Module) (limit k : Nat) (p : Progress Sink)
    (post : α → Store → Progress Sink → Prop) : Except Halt α × Store → Prop
  | (.ok a, store) => ∃ n, post a store (advance standardHost module limit n p)
  | (.error (.error error), store) => ∃ n, advance standardHost module limit n p =
    .halted (.error (.error error)) { written := store.written }
  | (.error .exhausted, _) => ∃ n, k ≤ n ∧ ∃ frame callers sink,
    advance standardHost module limit n p = .running frame callers sink

namespace Follows

variable {α β : Type} {module : Module} {limit k : Nat} {p q : Progress Sink}
  {post : α → Store → Progress Sink → Prop} {post' : β → Store → Progress Sink → Prop}

theorem now {a : α} {store : Store} (h : post a store p) :
    Follows module limit k p post (.ok a, store) := by
  refine ⟨0, ?_⟩
  rw [advance_zero]
  exact h

theorem halt {error : ExecutionError} {store : Store}
    (h : p = .halted (.error (.error error)) { written := store.written }) :
    Follows module limit k p post (.error (.error error), store) :=
  ⟨0, (advance_zero _ _ _ p).trans h⟩

/-- A run that follows after some steps follows, and lasts longer by their number. -/
theorem after {n k' : Nat} (hSteps : advance standardHost module limit n p = q) (hk : k' ≤ n + k)
    {outcome : Except Halt α × Store} (h : Follows module limit k q post outcome) :
    Follows module limit k' p post outcome := by
  subst hSteps
  match outcome, h with
  | (.ok a, store), ⟨m, hm⟩ =>
    refine ⟨n + m, ?_⟩
    rw [advance_add]
    exact hm
  | (.error (.error error), store), ⟨m, hm⟩ =>
    refine ⟨n + m, ?_⟩
    rw [advance_add]
    exact hm
  | (.error .exhausted, store), ⟨m, hLe, frame, callers, sink, hm⟩ =>
    refine ⟨n + m, by omega, frame, callers, sink, ?_⟩
    rw [advance_add]
    exact hm

theorem le {k' : Nat} {outcome : Except Halt α × Store} (h : Follows module limit k p post outcome)
    (hk : k' ≤ k) : Follows module limit k' p post outcome :=
  h.after (advance_zero _ _ _ _) (Nat.le_add_left_of_le hk)

theorem mono {outcome : Except Halt α × Store} (h : Follows module limit k p post outcome)
    {post₂ : α → Store → Progress Sink → Prop} (hPost : ∀ a store q, post a store q → post₂ a store q) :
    Follows module limit k p post₂ outcome := by
  match outcome, h with
  | (.ok a, store), ⟨m, hm⟩ => exact ⟨m, hPost _ _ _ hm⟩
  | (.error (.error error), store), h => exact h
  | (.error .exhausted, store), h => exact h

theorem bind {action : Eval α} {next : α → Eval β} {store : Store}
    (h : Follows module limit k p post (action store))
    (hNext : ∀ a after q, post a after q → Follows module limit k q post' (next a after)) :
    Follows module limit k p post' ((action >>= next) store) := by
  rw [bind_apply]
  match action store, h with
  | (.ok a, after), ⟨m, hm⟩ => exact (hNext a after _ hm).after rfl (Nat.le_add_left _ _)
  | (.error (.error error), after), h => exact h
  | (.error .exhausted, after), h => exact h

end Follows
end Slate
