import Mathlib.Data.List.Infix

set_option autoImplicit false

/-! # Transducers

A transducer reads a list of inputs one by one, keeps a state and writes any number of outputs for
each input. Its run over a list splits at every point: the run over the second part starts from the
state the first part left, and the outputs are put one after the other. A reader that stops
anywhere and goes on from a saved state therefore writes what one continuous run writes. -/

/-- A machine from inputs to outputs. -/
structure Transducer (σ ι ο : Type*) where
  init : σ
  step : σ → ι → σ × List ο

namespace Transducer

variable {σ ι ο : Type*} (T : Transducer σ ι ο)

/-- The run over a list of inputs from a state: the state it ends in and all outputs. -/
def run : σ → List ι → σ × List ο
  | s, [] => (s, [])
  | s, i :: is => ((run (T.step s i).1 is).1, (T.step s i).2 ++ (run (T.step s i).1 is).2)

/-- The state after a list of inputs. -/
def state (is : List ι) : σ := (T.run T.init is).1

/-- What the transducer writes for a list of inputs. -/
def output (is : List ι) : List ο := (T.run T.init is).2

@[simp] theorem run_nil (s : σ) : T.run s [] = (s, []) := rfl

@[simp] theorem state_nil : T.state [] = T.init := rfl

@[simp] theorem output_nil : T.output [] = [] := rfl

theorem run_cons (s : σ) (i : ι) (is : List ι) : T.run s (i :: is) =
      ((T.run (T.step s i).1 is).1, (T.step s i).2 ++ (T.run (T.step s i).1 is).2) := rfl

theorem run_append (s : σ) (is js : List ι) : T.run s (is ++ js) =
      ((T.run (T.run s is).1 js).1, (T.run s is).2 ++ (T.run (T.run s is).1 js).2) := by
  induction is generalizing s with
  | nil => rfl
  | cons i is ih => rw [List.cons_append, run_cons, ih, run_cons, List.append_assoc]

theorem state_append (is js : List ι) : T.state (is ++ js) = (T.run (T.state is) js).1 := by
  rw [state, run_append, state]

theorem output_append (is js : List ι) :
    T.output (is ++ js) = T.output is ++ (T.run (T.state is) js).2 := by
  rw [output, run_append, output, state]

theorem state_concat (is : List ι) (i : ι) : T.state (is ++ [i]) = (T.step (T.state is) i).1 := by
  rw [state_append, run_cons, run_nil]

theorem output_concat (is : List ι) (i : ι) :
    T.output (is ++ [i]) = T.output is ++ (T.step (T.state is) i).2 := by
  rw [output_append, run_cons, run_nil, List.append_nil]

theorem output_isPrefix {is js : List ι} (h : is <+: js) : T.output is <+: T.output js := by
  obtain ⟨ks, rfl⟩ := h
  exact ⟨_, (T.output_append is ks).symm⟩

end Transducer
