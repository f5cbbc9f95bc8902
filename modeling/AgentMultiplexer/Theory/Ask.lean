import Mathlib.Logic.Basic

set_option autoImplicit false

/-! # Computations that ask

A computation over state that others change in between is a tree: a result, or a question with a
continuation for each answer. One question is one step, so the answers may come from different
states; `run` is the special case in which one state answers them all. -/

/-- A computation with result `α` that asks questions `q : κ` and is told an `A q`. -/
inductive Ask (κ : Type) (A : κ → Type) (α : Type)
  | done (a : α)
  | ask (q : κ) (next : A q → Ask κ A α)

namespace Ask

variable {κ : Type} {A : κ → Type} {α β : Type}

protected def bind : Ask κ A α → (α → Ask κ A β) → Ask κ A β
  | done a, f => f a
  | ask q next, f => ask q fun ans => (next ans).bind f

instance : Monad (Ask κ A) where
  pure := done
  bind := Ask.bind

/-- The result when every question is answered by `answer`. -/
def run (answer : (q : κ) → A q) : Ask κ A α → α
  | done a => a
  | ask q next => (next (answer q)).run answer

@[simp] theorem run_ask (answer : (q : κ) → A q) (q : κ) (next : A q → Ask κ A α) :
    (ask q next).run answer = (next (answer q)).run answer := rfl

@[simp] theorem run_bind (answer : (q : κ) → A q) (m : Ask κ A α) (f : α → Ask κ A β) :
    (m >>= f).run answer = (f (m.run answer)).run answer := by
  induction m with
  | done a => rfl
  | ask q next ih => exact ih (answer q)

/-- While the answers meet `V`, the computation asks only questions that meet `P`. -/
def Only (V : (q : κ) → A q → Prop) (P : κ → Prop) : Ask κ A α → Prop
  | done _ => True
  | ask q next => P q ∧ ∀ ans, V q ans → (next ans).Only V P

variable {V : (q : κ) → A q → Prop} {P : κ → Prop}

theorem Only.bind {m : Ask κ A α} {f : α → Ask κ A β} (hm : m.Only V P)
    (hf : ∀ a, (f a).Only V P) : (m >>= f).Only V P := by
  induction m with
  | done a => exact hf a
  | ask q next ih => exact ⟨hm.1, fun ans hans => ih ans (hm.2 ans hans)⟩

/-- Whatever the answers, the result meets `R`. -/
def Yields (R : α → Prop) : Ask κ A α → Prop
  | done a => R a
  | ask _ next => ∀ ans, (next ans).Yields R

theorem Yields.bind {R : α → Prop} {S : β → Prop} {m : Ask κ A α} {f : α → Ask κ A β}
    (hm : m.Yields R) (hf : ∀ a, R a → (f a).Yields S) : (m >>= f).Yields S := by
  induction m with
  | done a => exact hf a hm
  | ask q next ih => exact fun ans => ih ans (hm ans)

theorem Yields.trivial (m : Ask κ A α) : m.Yields fun _ => True := by
  induction m with
  | done a => exact .intro
  | ask q next ih => exact ih

end Ask
