import Mathlib.Algebra.BigOperators.Group.List.Basic
import AgentMultiplexer.Theory.GoMap

set_option autoImplicit false

/-! # Totals over the values of a map

The sum of a weight over the values of a map: a counter kept beside a map, a number of entries with
some property, a length. Each update of the map changes a total by the weight of the entry it adds
or removes, and a map whose entries all reappear, no lighter, in another map weighs no more than
that one. -/

namespace GoMap

open AList List

variable {α β γ : Type*} {m : GoMap α β} {f : β → Nat} {a : α} {v w : β}

/-- The sum of `f` over the values. -/
def total (f : β → Nat) (m : GoMap α β) : Nat := (m.entries.map fun e => f e.2).sum

theorem len_eq_total : m.len = total (fun _ => 1) m := by
  simp [len, total]

/-- The entries a deleting loop leaves and those it takes share the total between them. -/
theorem total_filter_add (keep : α → β → Bool) :
    total f (m.filter keep) + total f (m.filter fun k x => !keep k x) = total f m := by
  simp only [total, filter]
  induction m.entries with
  | nil => rfl
  | cons e rest ih =>
    cases hkeep : keep e.1 e.2
    · simp only [filter_cons, hkeep, Bool.not_false, map_cons, sum_cons,
        Bool.false_eq_true, if_false, if_true]
      omega
    · simp only [filter_cons, hkeep, Bool.not_true, map_cons, sum_cons,
        Bool.false_eq_true, if_false, if_true]
      omega

/-- A loop that keeps the weight of every value keeps the total. -/
theorem total_mapVal {h : α → β → β} (hw : ∀ k x, f (h k x) = f x) :
    total f (m.mapVal h) = total f m := by
  simp only [total, mapVal, List.map_map]
  congr 1
  exact map_congr_left fun e _ => hw e.1 e.2

variable [DecidableEq α]

theorem total_insert_of_lookup_none (h : m.lookup a = none) :
    total f (m.insert a v) = f v + total f m := by
  rw [total, entries_insert_of_notMem (lookup_eq_none.mp h)]
  rfl

theorem perm_cons_erase (h : m.lookup a = some v) :
    m.entries.Perm (⟨a, v⟩ :: (m.erase a).entries) := by
  refine (perm_ext_iff_of_nodup m.nodupKeys.nodup ?_).mpr fun e => ?_
  · refine nodup_cons.mpr ⟨fun hmem => ?_, (m.erase a).nodupKeys.nodup⟩
    rw [mem_entries_iff, lookup_erase_ite, if_pos rfl] at hmem
    exact absurd hmem (by simp)
  obtain ⟨k, x⟩ := e
  rw [mem_cons, mem_entries_iff, mem_entries_iff, lookup_erase_ite]
  by_cases hk : k = a
  · subst hk
    simp [h, eq_comm]
  · simp [hk]

theorem total_erase_add (h : m.lookup a = some v) : total f (m.erase a) + f v = total f m := by
  have hsum := ((perm_cons_erase h).map fun e => f e.2).sum_eq
  rw [total, total, hsum, map_cons, sum_cons, Nat.add_comm]

theorem total_insert_of_lookup (h : m.lookup a = some w) :
    total f (m.insert a v) + f w = total f m + f v := by
  have hinsert : total f (m.insert a v) = f v + total f (m.erase a) := rfl
  have herase := total_erase_add (f := f) h
  omega

theorem total_eq_zero (h : ∀ k x, m.lookup k = some x → f x = 0) : total f m = 0 := by
  refine sum_eq_zero fun n hn => ?_
  obtain ⟨⟨k, x⟩, hmem, rfl⟩ := mem_map.mp hn
  exact h k x (mem_entries_iff.mp hmem)

/-- **Comparison.** Every entry reappears under its key in the other map, no lighter. -/
theorem total_le_total {m' : GoMap α γ} {g : γ → Nat}
    (h : ∀ k x, m.lookup k = some x → ∃ y, m'.lookup k = some y ∧ f x ≤ g y) :
    total f m ≤ total g m' := by
  induction m using AList.insertRec generalizing m' with
  | H0 => exact Nat.zero_le _
  | IH k x rest hk ih =>
    obtain ⟨y, hy, hle⟩ := h k x (lookup_insert rest)
    -- The other entries reappear in what the other map has left without `k`.
    have hrest : total f rest ≤ total g (m'.erase k) := ih fun k' x' hx' => by
      have hne : k' ≠ k := fun heq => hk (heq ▸ mem_of_lookup hx')
      obtain ⟨y', hy', hle'⟩ := h k' x' (by rw [lookup_insert_ite, if_neg hne, hx'])
      exact ⟨y', by rw [lookup_erase_ite, if_neg hne, hy'], hle'⟩
    rw [total_insert_of_lookup_none (lookup_eq_none.mpr hk)]
    have hback := total_erase_add (f := g) hy
    omega

end GoMap
