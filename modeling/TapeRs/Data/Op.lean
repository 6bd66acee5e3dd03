import Mathlib.Logic.Function.Basic

namespace TapeRs

/-- A command that may fail; what it did to the state stays done when it fails. -/
def Op (σ ε α : Type) : Type := σ → Except ε α × σ

namespace Op

variable {σ ε ε' α β : Type}

instance : Monad (Op σ ε) where
  pure value := fun state => (.ok value, state)
  bind first next := fun state =>
    match first state with
    | (.ok value, after) => next value after
    | (.error error, after) => (.error error, after)

def get : Op σ ε σ := fun state => (.ok state, state)

def modify (f : σ → σ) : Op σ ε Unit := fun state => (.ok (), f state)

def throw (error : ε) : Op σ ε α := fun state => (.error error, state)

def lift (result : Except ε α) : Op σ ε α := fun state => (result, state)

/-- On failure the state is adjusted and the failure is passed on in other words. -/
def onError (op : Op σ ε α) (rename : ε → ε') (adjust : ε → σ → σ) : Op σ ε' α := fun state =>
  match op state with
  | (.ok value, after) => (.ok value, after)
  | (.error error, after) => (.error (rename error), adjust error after)

section Runs

variable {first : Op σ ε α} {next : α → Op σ ε β} {state after : σ}

@[simp] theorem get_run : (get : Op σ ε σ) state = (.ok state, state) := rfl

theorem bind_run_ok {value : α} (done : first state = (.ok value, after)) : (first >>= next) state = next value after := by
  show (match first state with | (.ok value, after) => next value after | (.error error, after) => (.error error, after)) = _
  rw [done]

theorem bind_run_error {error : ε} (failed : first state = (.error error, after)) :
    (first >>= next) state = (.error error, after) := by
  show (match first state with | (.ok value, after) => next value after | (.error error, after) => (.error error, after)) = _
  rw [failed]

theorem onError_ok {op : Op σ ε α} {rename : ε → ε'} {adjust : ε → σ → σ} {value : α} (done : op state = (.ok value, after)) :
    op.onError rename adjust state = (.ok value, after) := by
  unfold onError
  rw [done]

theorem onError_error {op : Op σ ε α} {rename : ε → ε'} {adjust : ε → σ → σ} {error : ε}
    (failed : op state = (.error error, after)) : op.onError rename adjust state = (.error (rename error), adjust error after) := by
  unfold onError
  rw [failed]

end Runs

def Keeps (R : σ → σ → Prop) (op : Op σ ε α) : Prop := ∀ state, R state (op state).2

namespace Keeps

variable {R : σ → σ → Prop}

theorem pure (refl : ∀ state, R state state) (value : α) : Keeps R (Pure.pure value : Op σ ε α) :=
  fun state => refl state

theorem get (refl : ∀ state, R state state) : Keeps R (Op.get : Op σ ε σ) := fun state => refl state

theorem throw (refl : ∀ state, R state state) (error : ε) : Keeps R (Op.throw error : Op σ ε α) :=
  fun state => refl state

theorem lift (refl : ∀ state, R state state) (result : Except ε α) : Keeps R (Op.lift result : Op σ ε α) :=
  fun state => refl state

theorem seq {R₁ R₂ : σ → σ → Prop} (stop : ∀ a b, R₁ a b → R a b) (both : ∀ a b c, R₁ a b → R₂ b c → R a c)
    {first : Op σ ε α} {next : α → Op σ ε β} (head : Keeps R₁ first) (tail : ∀ value, Keeps R₂ (next value)) :
    Keeps R (first >>= next) := by
  intro state
  have here := head state
  cases run : first state with
  | mk outcome middle =>
    rw [run] at here
    cases outcome with
    | ok value =>
      rw [bind_run_ok run]
      exact both _ _ _ here (tail value middle)
    | error error =>
      rw [bind_run_error run]
      exact stop _ _ here

theorem bind (trans : ∀ a b c, R a b → R b c → R a c) {first : Op σ ε α} {next : α → Op σ ε β}
    (head : Keeps R first) (tail : ∀ value, Keeps R (next value)) : Keeps R (first >>= next) :=
  seq (fun _ _ related => related) trans head tail

theorem get_bind {next : σ → Op σ ε β} (tail : ∀ state, R state (next state state).2) : Keeps R (Op.get >>= next) :=
  fun state => tail state

theorem onError (trans : ∀ a b c, R a b → R b c → R a c) {op : Op σ ε α} {rename : ε → ε'} {adjust : ε → σ → σ}
    (body : Keeps R op) (adjusted : ∀ error state, R state (adjust error state)) :
    Keeps R (op.onError rename adjust) := by
  intro state
  have here := body state
  show R state (match op state with
    | (.ok value, after) => (Except.ok value, after)
    | (.error error, after) => (Except.error (rename error), adjust error after)).2
  cases run : op state with
  | mk outcome middle =>
    rw [run] at here
    cases outcome with
    | ok value => exact here
    | error error => exact trans _ _ _ here (adjusted error middle)

end Keeps

end Op

end TapeRs
