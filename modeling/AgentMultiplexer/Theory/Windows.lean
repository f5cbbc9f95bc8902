import Mathlib.Data.List.Basic

set_option autoImplicit false

/-! # Bounds over sliding windows

A limiter that looks back over one window each time it admits something bounds every window: the
last admission inside a window looked back over all the earlier ones in it. The log is kept with the
newest entry first. -/

namespace Windows

variable {α : Type*} (time : α → Int) (width : Int) (bound : α → Nat)

/-- Times do not go backwards, and each entry found room in the window that ends with it. -/
def Admitted : List α → Prop
  | [] => True
  | a :: rest => Admitted rest ∧ (∀ b ∈ rest, time b ≤ time a) ∧
      (a :: rest).countP (fun b => time a - width < time b) ≤ bound a

variable {time width bound}

/-- **Any window.** The entries that `p` picks share the bound. -/
theorem countP_window_le {log : List α} (h : Admitted time width bound log) (p : α → Bool) (w : Int)
    {n : Nat} (hn : ∀ a ∈ log, p a = true → bound a ≤ n) :
    log.countP (fun a => p a && decide (w < time a ∧ time a ≤ w + width)) ≤ n := by
  induction log with
  | nil => exact Nat.zero_le n
  | cons a rest ih =>
    obtain ⟨hrest, -, hroom⟩ := h
    by_cases hin : (p a && decide (w < time a ∧ time a ≤ w + width)) = true
    · -- The newest entry of the window looked back at least as far as the window reaches.
      simp only [Bool.and_eq_true, decide_eq_true_eq] at hin
      refine Nat.le_trans (List.countP_mono_left fun b _ hb => ?_)
        (Nat.le_trans hroom (hn a List.mem_cons_self hin.1))
      simp only [Bool.and_eq_true, decide_eq_true_eq] at hb ⊢
      omega
    · rw [List.countP_cons, if_neg hin, Nat.add_zero]
      exact ih hrest fun b hb => hn b (List.mem_cons_of_mem _ hb)

end Windows
