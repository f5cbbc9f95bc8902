import Mathlib.Logic.Relation
import Mathlib.Order.Basic

set_option autoImplicit false

/-! # Waiting in order

Threads hold resources and wait for resources. If the resources are ordered and a thread only waits
for a resource above everything it holds, the resources waited for rise along every chain of waits,
so no chain closes. -/

namespace LockOrder

variable {τ ρ : Type*} (holds waits : τ → ρ → Prop)

/-- `t` waits for a resource that `u` holds. -/
def WaitsOn (t u : τ) : Prop := ∃ r, waits t r ∧ holds u r

/-- Some threads wait for one another in a circle. -/
def Deadlocked (t : τ) : Prop := Relation.TransGen (WaitsOn holds waits) t t

variable {holds waits} [Preorder ρ]

theorem rises (horder : ∀ t r r', waits t r → holds t r' → r' < r) {t u : τ}
    (h : Relation.TransGen (WaitsOn holds waits) t u) :
    ∃ r, waits t r ∧ ∀ r', waits u r' → r < r' := by
  induction h with
  | single hw =>
    obtain ⟨r, hwait, hhold⟩ := hw
    exact ⟨r, hwait, fun r' hr' => horder _ r' r hr' hhold⟩
  | tail _ hw ih =>
    obtain ⟨r, hwait, hrise⟩ := ih
    obtain ⟨r₁, hwait₁, hhold⟩ := hw
    exact ⟨r, hwait, fun r' hr' => (hrise r₁ hwait₁).trans (horder _ r' r₁ hr' hhold)⟩

/-- **No circle of waits.** -/
theorem not_deadlocked (horder : ∀ t r r', waits t r → holds t r' → r' < r) (t : τ) :
    ¬ Deadlocked holds waits t := by
  intro h
  obtain ⟨r, hwait, hrise⟩ := rises horder h
  exact lt_irrefl r (hrise r hwait)

end LockOrder
