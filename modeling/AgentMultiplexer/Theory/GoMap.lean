import Mathlib.Data.List.AList
import Mathlib.Algebra.Order.Ring.Nat

set_option autoImplicit false

/-! # Go maps

A Go map is a finite association with distinct keys whose iteration order is unspecified; Mathlib's
`AList` is exactly that, with the list order standing for the order one `range` loop happens to
take. The lemmas here are the lookup equations in the form the model's proofs use: one `if` for
each update, and reading an absent key as the zero value. -/

/-- A Go `map[α]β`. -/
abbrev GoMap (α : Type*) (β : Type*) := AList fun _ : α => β

namespace GoMap

open AList Option

variable {α β : Type*} [DecidableEq α] {a b : α} {v w : β} {m : GoMap α β}

/-- The one-value read `m[a]`: the zero value when the key is absent. -/
def get (m : GoMap α β) (a : α) (zero : β) : β := (m.lookup a).getD zero

theorem lookup_insert_ite : (m.insert b v).lookup a = if a = b then some v else m.lookup a := by
  split_ifs with h
  · rw [h, lookup_insert]
  · exact lookup_insert_ne h

theorem lookup_erase_ite : (m.erase b).lookup a = if a = b then none else m.lookup a := by
  split_ifs with h
  · rw [h, lookup_erase]
  · exact lookup_erase_ne h

theorem lookup_insert_eq_some :
    (m.insert b v).lookup a = some w ↔ a = b ∧ v = w ∨ a ≠ b ∧ m.lookup a = some w := by
  rw [lookup_insert_ite]
  split_ifs with h <;> simp [h]

/-- What holds of the write, and held of what was there, holds of all there is after it. -/
theorem forall_insert {P : α → β → Prop} (hnew : P b v)
    (hold : ∀ a w, m.lookup a = some w → P a w) :
    ∀ a w, (m.insert b v).lookup a = some w → P a w := by
  intro a w h
  rcases lookup_insert_eq_some.mp h with ⟨rfl, rfl⟩ | ⟨-, h⟩
  · exact hnew
  · exact hold a w h

theorem exists_lookup_insert (h : m.lookup a = some w) :
    ∃ w', (m.insert b v).lookup a = some w' := by
  rw [lookup_insert_ite]
  split_ifs
  · exact ⟨v, rfl⟩
  · exact ⟨w, h⟩

theorem lookup_erase_eq_some : (m.erase b).lookup a = some w ↔ a ≠ b ∧ m.lookup a = some w := by
  rw [lookup_erase_ite]
  split_ifs with h <;> simp [h]

theorem lookup_of_erase (h : (m.erase b).lookup a = some v) : m.lookup a = some v :=
  (lookup_erase_eq_some.mp h).2

theorem lookup_of_erase_insert (h : ((m.insert b v).erase b).lookup a = some w) :
    m.lookup a = some w := by
  obtain ⟨hne, h⟩ := lookup_erase_eq_some.mp h
  rwa [lookup_insert_ne hne] at h

theorem mem_of_lookup (h : m.lookup a = some v) : a ∈ m :=
  lookup_isSome.mp (by rw [h]; rfl)

theorem mem_entries_iff : (⟨a, v⟩ : Sigma fun _ : α => β) ∈ m.entries ↔ m.lookup a = some v := by
  rw [← mem_lookup_iff, mem_def]

variable {zero : β}

theorem get_of_lookup (h : m.lookup a = some v) : m.get a zero = v := by
  rw [get, h, getD_some]

theorem get_of_lookup_none (h : m.lookup a = none) : m.get a zero = zero := by
  rw [get, h, getD_none]

theorem lookup_of_get (h : m.get a zero = v) (hv : v ≠ zero) : m.lookup a = some v := by
  cases hl : m.lookup a with
  | none => exact absurd ((get_of_lookup_none hl).symm.trans h).symm hv
  | some w => rw [← h, get_of_lookup hl]

def len (m : GoMap α β) : Nat := m.entries.length

/-- The map a loop leaves that deletes every entry `keep` refuses. -/
def filter (m : GoMap α β) (keep : α → β → Bool) : GoMap α β where
  entries := m.entries.filter fun e => keep e.1 e.2
  nodupKeys := m.nodupKeys.sublist List.filter_sublist

theorem lookup_filter_eq_some {keep : α → β → Bool} :
    (m.filter keep).lookup a = some v ↔ m.lookup a = some v ∧ keep a v = true := by
  rw [← mem_entries_iff, ← mem_entries_iff, filter, List.mem_filter]

theorem mem_iff_lookup : a ∈ m ↔ ∃ v, m.lookup a = some v := by
  rw [← lookup_isSome, isSome_iff_exists]

theorem mem_filter {keep : α → β → Bool} :
    a ∈ m.filter keep ↔ ∃ v, m.lookup a = some v ∧ keep a v = true := by
  rw [mem_iff_lookup]
  simp only [lookup_filter_eq_some]

/-- The map a loop leaves that rewrites every value in place. -/
def mapVal (m : GoMap α β) (f : α → β → β) : GoMap α β where
  entries := m.entries.map fun e => ⟨e.1, f e.1 e.2⟩
  nodupKeys := by
    have hkeys : (m.entries.map fun e => (⟨e.1, f e.1 e.2⟩ : Sigma fun _ : α => β)).keys =
        m.entries.keys := by
      simp only [List.keys, List.map_map]
      rfl
    rw [List.NodupKeys, hkeys]
    exact m.nodupKeys

theorem lookup_mapVal {f : α → β → β} : (m.mapVal f).lookup a = (m.lookup a).map (f a) := by
  refine ext fun w => ?_
  rw [← mem_entries_iff, mapVal, List.mem_map, map_eq_some_iff]
  constructor
  · rintro ⟨⟨k, v⟩, hmem, heq⟩
    cases heq
    exact ⟨v, mem_entries_iff.mp hmem, rfl⟩
  · rintro ⟨v, hlook, rfl⟩
    exact ⟨⟨a, v⟩, mem_entries_iff.mpr hlook, rfl⟩

theorem lookup_mapVal_eq_some {f : α → β → β} :
    (m.mapVal f).lookup a = some w ↔ ∃ v, m.lookup a = some v ∧ f a v = w := by
  rw [lookup_mapVal, map_eq_some_iff]

end GoMap
