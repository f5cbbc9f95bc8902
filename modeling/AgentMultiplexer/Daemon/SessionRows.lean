import AgentMultiplexer.Daemon.Admission

set_option autoImplicit false

/-! # The rows of the store and their writes

What the guards read of a row is its archived flag and its root. A write changes one row; the root of
a row changes only by a move and by a creation or deletion of the row. -/

namespace AgentMultiplexer.Daemon

open AList Access Option

/-! ## Rows -/

/-- The root a row names; the empty string is a root's. -/
def rootOf (rows : Rows) (id : String) : Option String := (rows.lookup id).map Row.rootID

/-- The fields a guard reads of a row are as they were. -/
def Kept (rows rows' : Rows) (id : String) : Prop :=
  ∀ row, rows.lookup id = some row →
    ∃ row', rows'.lookup id = some row' ∧ row'.archived = row.archived ∧ row'.rootID = row.rootID

/-- Every row has an id, and the root of a member is no member. -/
structure Rooted (rows : Rows) : Prop where
  named : rootOf rows "" = none
  roots : ∀ {m r p}, rootOf rows m = some r → r ≠ "" → rootOf rows r = some p → p = ""

theorem mem_children {rows : Rows} {m id : String} :
    m ∈ children rows id ↔ rootOf rows m = some id := by
  rw [children, rootOf, List.mem_map, map_eq_some_iff]
  constructor
  · rintro ⟨⟨k, row⟩, hmem, rfl⟩
    obtain ⟨hmem, hroot⟩ := List.mem_filter.mp hmem
    exact ⟨row, GoMap.mem_entries_iff.mp hmem, by simpa using hroot⟩
  · rintro ⟨row, hrow, hroot⟩
    refine ⟨⟨m, row⟩, List.mem_filter.mpr ⟨GoMap.mem_entries_iff.mpr hrow, ?_⟩, rfl⟩
    simpa using hroot

theorem isRoot_iff {row : Row} : row.isRoot = true ↔ row.rootID = "" := by
  simp [Row.isRoot]

/-! ## Writes -/

def RowWrite.id : RowWrite → String
  | .setArchived id _ | .setRootID id _ | .setRepo id _ | .delete id | .create id _ => id

/-- What a write does to its row. -/
inductive WriteAt (rows : Rows) : RowWrite → Option Row → Option Row → Prop
  | setArchived {id archived row} :
      WriteAt rows (.setArchived id archived) (some row) (some { row with archived := archived })
  | setRootID {id root row} (hmember : row.rootID ≠ "") (hroot : rootOf rows root = some "") :
      WriteAt rows (.setRootID id root) (some row) (some { row with rootID := root })
  | setRepo {id repo row} :
      WriteAt rows (.setRepo id repo) (some row) (some { row with repo := repo })
  | delete {id row} : WriteAt rows (.delete id) (some row) none
  | create {id row} (hid : id ≠ "")
      (hparent : row.rootID = "" ∨ rootOf rows row.rootID = some "") :
      WriteAt rows (.create id row) none (some row)

section writes

variable {rows rows' : Rows} {w : RowWrite} {id : String}

section

variable (h : w.apply rows = some rows')

include h

theorem apply_frame (hid : id ≠ w.id) : rows'.lookup id = rows.lookup id := by
  cases w with
  | setArchived | setRepo =>
    obtain ⟨row, -, h⟩ := bind_eq_some_iff.mp h
    cases h
    exact lookup_insert_ne hid
  | setRootID i root =>
    obtain ⟨row, -, h⟩ := bind_eq_some_iff.mp h
    obtain ⟨target, -, h⟩ := bind_eq_some_iff.mp h
    split_ifs at h
    cases h
    exact lookup_insert_ne hid
  | delete i =>
    obtain ⟨row, -, h⟩ := bind_eq_some_iff.mp h
    cases h
    exact lookup_erase_ne hid
  | create i row =>
    rw [RowWrite.apply] at h
    split at h
    · cases h
    split_ifs at h
    cases h
    exact lookup_insert_ne hid

theorem apply_at : WriteAt rows w (rows.lookup w.id) (rows'.lookup w.id) := by
  cases w with
  | setArchived i archived =>
    obtain ⟨row, hrow, h⟩ := bind_eq_some_iff.mp h
    cases h
    simp only [RowWrite.id, hrow, lookup_insert]
    exact .setArchived
  | setRootID i root =>
    obtain ⟨row, hrow, h⟩ := bind_eq_some_iff.mp h
    obtain ⟨target, htarget, h⟩ := bind_eq_some_iff.mp h
    split_ifs at h with hcond
    cases h
    simp only [Row.isRoot, Bool.or_eq_true, decide_eq_true_eq, Bool.not_eq_true',
      decide_eq_false_iff_not, not_or, not_not] at hcond
    simp only [RowWrite.id, hrow, lookup_insert]
    exact .setRootID hcond.1 (by rw [rootOf, htarget, map_some, hcond.2])
  | setRepo i repo =>
    obtain ⟨row, hrow, h⟩ := bind_eq_some_iff.mp h
    cases h
    simp only [RowWrite.id, hrow, lookup_insert]
    exact .setRepo
  | delete i =>
    obtain ⟨row, hrow, h⟩ := bind_eq_some_iff.mp h
    cases h
    simp only [RowWrite.id, hrow, lookup_erase]
    exact .delete
  | create i row =>
    rw [RowWrite.apply] at h
    split at h
    · cases h
    next hnone =>
    split_ifs at h with hcond
    cases h
    simp only [RowWrite.id, hnone, lookup_insert]
    refine .create hcond.1 ?_
    obtain ⟨-, hparent⟩ := hcond
    rw [Bool.or_eq_true] at hparent
    refine hparent.imp isRoot_iff.mp fun hp => ?_
    obtain ⟨parent, hparent, hroot⟩ := (Option.any_eq_true _ _).mp hp
    rw [rootOf, hparent, map_some, isRoot_iff.mp hroot]

theorem rootOf_frame (hid : id ≠ w.id) : rootOf rows' id = rootOf rows id := by
  rw [rootOf, rootOf, apply_frame h hid]

/-- A member's row is new only by a creation, and names another root only by a move. -/
theorem rootOf_apply {r : String} (hr : rootOf rows' id = some r) :
    rootOf rows id = some r ∨ (∃ row, w = .create id row ∧ rootOf rows id = none) ∨
      ∃ root, w = .setRootID id root := by
  by_cases hid : id = w.id
  · subst hid
    have hat := apply_at h
    rw [rootOf] at hr
    generalize hold : rows.lookup w.id = old at hat
    generalize rows'.lookup w.id = new at hat hr
    rw [rootOf, hold]
    cases hat with
    | setArchived => exact .inl hr
    | setRootID _ _ => exact .inr (.inr ⟨_, rfl⟩)
    | setRepo => exact .inl hr
    | delete => cases hr
    | create _ _ => exact .inr (.inl ⟨_, rfl, rfl⟩)
  · rw [rootOf_frame h hid] at hr
    exact .inl hr

theorem rootOf_kept {r : String} (hr : rootOf rows id = some r)
    (hdelete : w ≠ .delete id) (hmove : ∀ root, w ≠ .setRootID id root) :
    rootOf rows' id = some r := by
  by_cases hid : id = w.id
  · subst hid
    have hat := apply_at h
    rw [rootOf] at hr ⊢
    generalize rows.lookup w.id = old at hat hr
    generalize rows'.lookup w.id = new at hat
    cases hat with
    | setArchived => exact hr
    | setRootID _ _ => exact absurd rfl (hmove _)
    | setRepo => exact hr
    | delete => exact absurd rfl hdelete
    | create _ _ => cases hr
  · rw [rootOf_frame h hid]
    exact hr

end

theorem Rooted.same (hrooted : Rooted rows) (hsame : ∀ m, rootOf rows' m = rootOf rows m) :
    Rooted rows' where
  named := by rw [hsame]; exact hrooted.named
  roots := by
    intro m r p hm hr hp
    rw [hsame] at hm hp
    exact hrooted.roots hm hr hp

/-- The store keeps its roots apart from its members, unless a new member takes an id that rows
    still name as their root. -/
theorem Rooted.apply (hrooted : Rooted rows) (h : w.apply rows = some rows')
    (hfresh : ∀ i row, w = .create i row → row.rootID ≠ "" → ∀ m, rootOf rows m ≠ some i) :
    Rooted rows' := by
  have hat := apply_at h
  have hframe : ∀ m, m ≠ w.id → rootOf rows' m = rootOf rows m := fun m hm => rootOf_frame h hm
  have hold : rootOf rows w.id = (rows.lookup w.id).map Row.rootID := rfl
  have hnew : rootOf rows' w.id = (rows'.lookup w.id).map Row.rootID := rfl
  generalize rows.lookup w.id = old at hat hold
  generalize rows'.lookup w.id = new at hat hnew
  have hsame : rootOf rows' w.id = rootOf rows w.id → Rooted rows' := fun heq =>
    hrooted.same fun m => by
      by_cases hm : m = w.id
      · rw [hm, heq]
      · exact hframe m hm
  cases hat with
  | setArchived | setRepo => exact hsame (by rw [hold, hnew]; rfl)
  | @setRootID id root row hmember hroot =>
    have hold : rootOf rows id = some row.rootID := hold
    have hnew : rootOf rows' id = some root := hnew
    have hne : id ≠ "" := fun h => by rw [h, hrooted.named] at hold; cases hold
    have hne' : root ≠ id := fun h => by
      rw [h, hold] at hroot
      exact hmember (some.inj hroot)
    refine ⟨by rw [hframe "" (Ne.symm hne)]; exact hrooted.named, fun {m r p} hm hr hp => ?_⟩
    -- nobody names the moved member as a root, so the row `r` is not the moved one
    by_cases hmid : m = id
    · rw [hmid, hnew] at hm
      cases hm
      rw [hframe _ hne', hroot] at hp
      exact (some.inj hp).symm
    · rw [hframe m hmid] at hm
      by_cases hrid : r = id
      · rw [hrid] at hm hr
        exact absurd (hrooted.roots hm hr hold) hmember
      · rw [hframe r hrid] at hp
        exact hrooted.roots hm hr hp
  | @delete id row =>
    have hnew : rootOf rows' id = none := hnew
    have hsome : ∀ {m r}, rootOf rows' m = some r → m ≠ id := by
      rintro m r hm rfl
      rw [hnew] at hm
      cases hm
    refine ⟨?_, fun {m r p} hm hr hp => ?_⟩
    · by_cases hid : "" = id
      · rw [hid, hnew]
      · rw [hframe "" hid]
        exact hrooted.named
    · rw [hframe m (hsome hm)] at hm
      rw [hframe r (hsome hp)] at hp
      exact hrooted.roots hm hr hp
  | @create id row hid hparent =>
    have hold : rootOf rows id = none := hold
    have hnew : rootOf rows' id = some row.rootID := hnew
    refine ⟨by rw [hframe "" (Ne.symm hid)]; exact hrooted.named, fun {m r p} hm hr hp => ?_⟩
    by_cases hmid : m = id
    · rw [hmid, hnew] at hm
      cases hm
      have hroot := hparent.resolve_left hr
      have hne : row.rootID ≠ id := fun h => by rw [h, hold] at hroot; cases hroot
      rw [hframe _ hne, hroot] at hp
      exact (some.inj hp).symm
    · rw [hframe m hmid] at hm
      by_cases hrid : r = id
      · rw [hrid, hnew] at hp
        cases hp
        by_contra hmember
        exact hfresh id row rfl hmember m (by rw [hm, hrid])
      · rw [hframe r hrid] at hp
        exact hrooted.roots hm hr hp

end writes

end AgentMultiplexer.Daemon
