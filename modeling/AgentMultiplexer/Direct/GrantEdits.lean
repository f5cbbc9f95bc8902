import AgentMultiplexer.Direct.Grants
import AgentMultiplexer.Direct.SpentKeys

set_option autoImplicit false

/-! # What a step does to a grant

Every content of the registry after a step, in memory or on the disk, comes from one before it by an
edit, and an edit does one of a few things to each grant: its actions change, it is revoked, its
refresh token is rotated, it is created, or it is pruned after its revocation. -/

namespace AgentMultiplexer.Direct

open GoMap Transition GrantState Option

variable {hash : TokenHash} {life : Lifetimes} {spentKey : String → String}

/-- The contents of the registry that a step may start from. -/
def GrantState.contents (s : GrantState) : List Registry :=
  (s.process.map Authority.registry).toList ++ s.disk

/-- What a step from `s` to `s'` may do to the grant of a client. -/
inductive CellEdit (hash : TokenHash) (s s' : GrantState) (c : String) :
    Option ClientGrant → Option ClientGrant → Prop
  | same (o : Option ClientGrant) : CellEdit hash s s' c o o
  | actions {g g' : ClientGrant} (hrevoked : g'.revokedAt = g.revokedAt)
      (hhash : g'.refreshHash = g.refreshHash) (hused : g'.usedRefresh = g.usedRefresh) :
      CellEdit hash s s' c (some g) (some g')
  | revoked {g g' : ClientGrant} (hrevoked : g'.revokedAt ≠ 0) (hhash : g'.refreshHash = "")
      (hused : g'.usedRefresh = g.usedRefresh) : CellEdit hash s s' c (some g) (some g')
  | rotated {g g' : ClientGrant} {next : String} (hlive : g.revokedAt = 0)
      (hcurrent : g.refreshHash ≠ "") (hhash : g'.refreshHash = hash.hash next)
      (hused : g'.usedRefresh = g.usedRefresh ++ [g.refreshHash]) (hnew : s.Undrawn next)
      (hdrawn : (next, c) ∈ s'.drawn) : CellEdit hash s s' c (some g) (some g')
  | created {g' : ClientGrant} {token : String} (hnew : s.Unused c) (hcreated : c ∈ s'.created)
      (hhash : g'.refreshHash = hash.hash token ∨ g'.refreshHash = "")
      (hused : g'.usedRefresh = []) (hdrawn : (token, c) ∈ s'.drawn) :
      CellEdit hash s s' c none (some g')
  | pruned {g : ClientGrant} (hrevoked : g.revokedAt ≠ 0) : CellEdit hash s s' c (some g) none

/-- An edit of a content. -/
def Edit (hash : TokenHash) (s s' : GrantState) (st st' : Registry) : Prop :=
  ∀ c, CellEdit hash s s' c (st.grants.lookup c) (st'.grants.lookup c)

section Edits

variable {s s' : GrantState} {st st' : Registry} {a a' : Authority}

theorem Edit.refl (st : Registry) : Edit hash s s' st st := fun _ => .same _

variable {c : String} {g : ClientGrant}

/-- What the edit made a grant from. -/
theorem Edit.cell (h : Edit hash s s' st st') (hg : st'.grants.lookup c = some g) :
    ∃ o, st.grants.lookup c = o ∧ CellEdit hash s s' c o (some g) :=
  ⟨_, rfl, hg ▸ h c⟩

theorem Edit.insert {generation : String} (h : CellEdit hash s s' c (st.grants.lookup c) (some g)) :
    Edit hash s s' st ⟨generation, st.grants.insert c g⟩ := by
  intro c'
  rw [lookup_insert_ite]
  split
  · next heq => exact heq ▸ h
  · exact .same _

theorem Edit.mapVal {f : String → ClientGrant → ClientGrant} {generation : String}
    (h : ∀ c g, st.grants.lookup c = some g → CellEdit hash s s' c (some g) (some (f c g))) :
    Edit hash s s' st ⟨generation, st.grants.mapVal f⟩ := by
  intro c
  rw [lookup_mapVal]
  cases hg : st.grants.lookup c with
  | none => exact .same _
  | some g => exact h c g hg

/-- Pruning after an edit takes grants that were revoked before it. -/
theorem Edit.prune {now : Int} (h : Edit hash s s' st a.registry)
    (hlive : ∀ c g, a.registry.grants.lookup c = some g → g.revokedAt ≠ 0 →
      st.grants.lookup c = some g) : Edit hash s s' st (a.prune now).registry := by
  intro c
  cases hg : (a.prune now).registry.grants.lookup c with
  | some g =>
    obtain ⟨hlookup, -⟩ := lookup_filter_eq_some.mp hg
    have := h c
    rwa [hlookup] at this
  | none =>
    have hcell := h c
    cases hold : a.registry.grants.lookup c with
    | none => rwa [hold] at hcell
    | some g =>
      have hrevoked : g.revokedAt ≠ 0 := by
        intro hzero
        have : (a.prune now).registry.grants.lookup c = some g :=
          lookup_filter_eq_some.mpr ⟨hold, by simp [hzero]⟩
        cases this.symm.trans hg
      rw [hlive c g hold hrevoked]
      exact .pruned hrevoked

theorem markRevoked_revokedAt (reason : String) (now : Instant) (g : ClientGrant) :
    (g.markRevoked reason now).revokedAt ≠ 0 := by
  show (markRevoked reason now g.toGrantRecord).revokedAt ≠ 0
  unfold markRevoked
  split
  · exact Int.ne_of_gt now.2
  · assumption

theorem CellEdit.markRevoked (c reason : String) (now : Instant) (g : ClientGrant) :
    CellEdit hash s s' c (some g) (some (g.markRevoked reason now)) :=
  .revoked (markRevoked_revokedAt reason now g) rfl rfl

/-- Contents that come from those before the step. -/
def FromContents (hash : TokenHash) (s s' : GrantState) (sts : List Registry) : Prop :=
  ∀ st' ∈ sts, ∃ st ∈ s.contents, Edit hash s s' st st'

theorem FromContents.disk : FromContents hash s s' s.disk :=
  fun st hst => ⟨st, List.mem_append_right _ hst, .refl st⟩

theorem FromContents.cons (h : Edit hash s s' st st') (hst : st ∈ s.contents)
    {sts : List Registry} (hrest : FromContents hash s s' sts) :
    FromContents hash s s' (st' :: sts) :=
  List.forall_mem_cons.mpr ⟨⟨st, hst, h⟩, hrest⟩

theorem FromContents.nil : FromContents hash s s' [] := fun _ h => absurd h List.not_mem_nil

theorem registry_mem (ha : s.process = some a) : a.registry ∈ s.contents := by
  simp [contents, ha]

/-- What a call that touches the leases of nobody leaves in memory and on the disk. -/
structure Leaves (hash : TokenHash) (s s' : GrantState) (a a' : Authority)
    (disk : List Registry) : Prop where
  contents : FromContents hash s s' (a'.registry :: disk)
  leases : a'.leases = a.leases ∧ a'.drains = a.drains

section Leaves

variable (ha : s.process = some a)

include ha

theorem Leaves.refl : Leaves hash s s' a a s.disk :=
  ⟨.cons (.refl _) (registry_mem ha) .disk, rfl, rfl⟩

variable (h : Edit hash s s' a.registry a'.registry)
  (hleases : a'.leases = a.leases ∧ a'.drains = a.drains)

include h hleases

/-- A change in memory, without a commit or with one that failed. -/
theorem Leaves.memory : Leaves hash s s' a a' s.disk :=
  ⟨.cons h (registry_mem ha) .disk, hleases⟩

theorem Leaves.committed : Leaves hash s s' a a' [a'.registry] :=
  ⟨.cons h (registry_mem ha) (.cons h (registry_mem ha) .nil), hleases⟩

theorem Leaves.ambiguous : Leaves hash s s' a a' (a'.registry :: s.disk) :=
  ⟨.cons h (registry_mem ha) (.cons h (registry_mem ha) .disk), hleases⟩

/-- A change that is kept whatever becomes of its commit. -/
theorem Leaves.commitKept (commit : Commit) :
    Leaves hash s s' a (a'.commitKept s.disk commit).1 (a'.commitKept s.disk commit).2 := by
  cases commit with
  | ok => exact .committed ha h hleases
  | notCommitted => exact .memory ha h hleases
  | ambiguous => exact .ambiguous ha h hleases

end Leaves

/-! ## The operations -/

open Authority

theorem redeem_from (ha : s.process = some a) {call : RedeemCall}
    (hnone : a.registry.grants.lookup call.clientID = none) (hnew : s.Unused call.clientID)
    (hcreated : call.clientID ∈ s'.created) (hdrawn : (call.refresh, call.clientID) ∈ s'.drawn) :
    Leaves hash s s' a (a.redeem hash life s.disk call).1 (a.redeem hash life s.disk call).2.1 := by
  have hcell : CellEdit hash s s' call.clientID (a.registry.grants.lookup call.clientID)
      (some (call.grant hash life a.identity)) := by
    rw [hnone]
    exact .created hnew hcreated (.inl rfl) rfl hdrawn
  have hinsert : Edit hash s s' a.registry
      (a.setGrant call.clientID (call.grant hash life a.identity)).registry := .insert hcell
  unfold Authority.redeem
  split
  · exact .refl ha
  cases call.commit with
  | ok =>
    refine ⟨.cons (hinsert.prune (forall_insert (fun hrevoked => ?_) fun c g hg _ => hg))
      (registry_mem ha) (.cons hinsert (registry_mem ha) .nil), rfl, rfl⟩
    exact absurd rfl hrevoked
  | notCommitted =>
    refine .memory ha (fun c => ?_) ⟨rfl, rfl⟩
    rw [lookup_erase_ite, lookup_insert_ite]
    split
    · next heq =>
      rw [heq, hnone]
      exact .same _
    · exact .same _
  | ambiguous =>
    refine ⟨.cons (fun c => ?_) (registry_mem ha) (.cons hinsert (registry_mem ha) .disk), rfl, rfl⟩
    simp only [Authority.markRevoked, setGrant, lookup_insert_ite]
    split
    · next heq =>
      rw [heq, hnone]
      exact .created hnew hcreated (.inr rfl) rfl hdrawn
    · exact .same _

theorem findRefresh_eq_some {grants : GoMap String ClientGrant} {x : String} {order : List String}
    {reused : Bool} (h : findRefresh grants x order = some (c, g, reused)) :
    grants.lookup c = some g ∧ (reused = false → g.refreshHash = x) ∧
      (reused = true → x ∈ g.usedRefresh) := by
  induction order with
  | nil => cases h
  | cons c' order ih =>
    rw [findRefresh] at h
    split at h
    · exact ih h
    next g' hg' =>
    split at h
    · next hcurrent =>
      cases h
      exact ⟨hg', fun _ => hcurrent, nofun⟩
    · split at h
      · next hused =>
        cases h
        exact ⟨hg', nofun, fun _ => hused⟩
      · exact ih h

theorem revokeRefresh_from (ha : s.process = some a) {c reason : String}
    {call : RefreshCall} (hg : a.registry.grants.lookup c = some g) :
    Leaves hash s s' a (a.revokeRefresh s.disk c reason g call).1
      (a.revokeRefresh s.disk c reason g call).2.1 := by
  refine .commitKept ha (.insert ?_) (by exact ⟨rfl, rfl⟩) call.commit
  rw [hg]
  exact .markRevoked c reason call.now g

theorem refresh_from (ha : s.process = some a) {call : RefreshCall} (hnew : s.Undrawn call.next)
    (hdrawn : ∀ c g reused,
      findRefresh a.registry.grants (hash.hash call.token) call.order = some (c, g, reused) →
        (call.next, c) ∈ s'.drawn) :
    Leaves hash s s' a (a.refresh hash life s.disk call).1
      (a.refresh hash life s.disk call).2.1 := by
  unfold Authority.refresh
  split
  · exact .refl ha
  split
  · exact .refl ha
  · next c g hfind => exact revokeRefresh_from ha (findRefresh_eq_some hfind).1
  next c g hfind =>
  obtain ⟨hg, hcurrent, -⟩ := findRefresh_eq_some hfind
  split
  · exact .refl ha
  next hvalid =>
  have hlive : g.revokedAt = 0 := by
    by_contra hne
    exact hvalid (.inl hne)
  split
  · exact revokeRefresh_from ha hg
  have hinsert : Edit hash s s' a.registry (a.setGrant c (rotate hash g call)).registry := by
    refine .insert ?_
    rw [hg]
    exact .rotated hlive (hcurrent rfl ▸ hash.ne_empty _) rfl rfl hnew (hdrawn c g _ hfind)
  unfold rotateGrant
  cases call.commit with
  | ok =>
    refine ⟨.cons (hinsert.prune (forall_insert (fun hrevoked => ?_) fun c g hg _ => hg))
      (registry_mem ha) (.cons hinsert (registry_mem ha) .nil), rfl, rfl⟩
    exact absurd hlive hrevoked
  | notCommitted =>
    refine .memory ha (.insert ?_) ⟨rfl, rfl⟩
    rw [hg]
    exact .actions rfl rfl (by simp [rotate])
  | ambiguous => exact .ambiguous ha hinsert ⟨rfl, rfl⟩

/-- **`BeginAction`** changes the actions of its grant only. -/
theorem beginAction_from (ha : s.process = some a) (l : LeaseState) (call : BeginCall) :
    Leaves hash s s' a (a.beginAction spentKey s.disk l call).1
      (a.beginAction spentKey s.disk l call).2.1 := by
  unfold Authority.beginAction
  split
  · exact .refl ha
  split
  · exact .refl ha
  next g hg =>
  split
  · exact .refl ha
  dsimp only
  -- whatever is written to the grant, its tokens stay
  have hedit : ∀ g' : GrantRecord, g'.revokedAt = g.revokedAt → Edit hash s s' a.registry
        (a.setGrant l.clientID { g with toGrantRecord := g' }).registry := by
    intro g' hrevoked
    refine .insert ?_
    rw [hg]
    exact .actions hrevoked rfl rfl
  have hcompact := hedit _ (compactExpired_revokedAt spentKey call.now call.order g.toGrantRecord)
  split
  · exact .memory ha hcompact ⟨rfl, rfl⟩
  split
  · exact .memory ha hcompact ⟨rfl, rfl⟩
  split
  · exact .memory ha hcompact ⟨rfl, rfl⟩
  split
  · exact .memory ha hcompact ⟨rfl, rfl⟩
  unfold admitAction
  simp only [setGrant, AList.insert_insert]
  have hbegun := fun idem => hedit
    { compactExpired spentKey call.now call.order g.toGrantRecord with idem := idem }
    (compactExpired_revokedAt spentKey call.now call.order g.toGrantRecord)
  cases call.commit with
  | ok => exact .committed ha (hbegun _) ⟨rfl, rfl⟩
  | notCommitted => exact .memory ha (hbegun _) ⟨rfl, rfl⟩
  | ambiguous => exact .ambiguous ha (hbegun _) ⟨rfl, rfl⟩

variable {now : Instant}

/-- **`loadAuthority`**, from a content of the disk. -/
theorem load_from (hnone : s.process = none) (hst : st ∈ s.disk) {identity : Identity}
    {boot : String} {settle revoke : Commit} :
    FromContents hash s s' (s.load st identity boot now settle revoke).contents := by
  have hmem : st ∈ s.contents := List.mem_append_right _ hst
  -- the end of the load, from a content in place
  have hopen : ∀ (st₁ : Registry) (disk : List Registry), Edit hash s s' st st₁ →
      (∀ c g, st₁.grants.lookup c = some g → ∃ g₀, st.grants.lookup c = some g₀ ∧
        g.usedRefresh = g₀.usedRefresh) →
      FromContents hash s s' disk →
      FromContents hash s s' (s.openLoaded st₁ disk identity boot now revoke).contents := by
    intro st₁ disk hedit hused hdisk
    unfold openLoaded
    split
    · have hadopt : Edit hash s s' st (st₁.adopt identity now) := by
        intro c
        have hcell := hedit c
        simp only [Registry.adopt, lookup_mapVal]
        cases hg : st₁.grants.lookup c with
        | none => rwa [hg] at hcell
        | some g =>
          obtain ⟨g₀, hg₀, hsame⟩ := hused c g hg
          rw [hg₀]
          exact .revoked (markRevoked_revokedAt _ now g) rfl hsame
      cases revoke with
      | ok => exact .cons hadopt hmem (.cons hadopt hmem .nil)
      | notCommitted => exact hdisk
      | ambiguous => exact .cons hadopt hmem hdisk
    · exact .cons hedit hmem hdisk
  have hsettle : Edit hash s s' st (st.settle now) := .mapVal fun c g _ => .actions rfl rfl rfl
  unfold load
  split
  · cases settle with
    | ok =>
      refine hopen _ _ hsettle (fun c g hg => ?_) (.cons hsettle hmem .nil)
      obtain ⟨g₀, hg₀, rfl⟩ := lookup_mapVal_eq_some.mp hg
      exact ⟨g₀, hg₀, rfl⟩
    | notCommitted =>
      rw [contents, hnone]
      exact .disk
    | ambiguous =>
      rw [hnone]
      exact .cons hsettle hmem .disk
  · exact hopen st s.disk (.refl st) (fun c g hg => ⟨g, hg, rfl⟩) .disk

theorem load_frame (s : GrantState) (st : Registry) (identity : Identity) (boot : String)
    (now : Instant) (settle revoke : Commit) :
    (s.load st identity boot now settle revoke).created = s.created ∧
      (s.load st identity boot now settle revoke).drawn = s.drawn ∧
      (s.load st identity boot now settle revoke).log = s.log := by
  have hopen : ∀ st disk, (s.openLoaded st disk identity boot now revoke).created = s.created ∧
      (s.openLoaded st disk identity boot now revoke).drawn = s.drawn ∧
      (s.openLoaded st disk identity boot now revoke).log = s.log := by
    intro st disk
    unfold openLoaded
    split <;> exact ⟨rfl, rfl, rfl⟩
  unfold load
  split
  · cases settle with
    | ok => exact hopen _ _
    | notCommitted | ambiguous => exact ⟨rfl, rfl, rfl⟩
  · exact hopen _ _

theorem load_fresh (hnone : s.process = none) {identity : Identity} {boot : String}
    {settle revoke : Commit} (h : (s.load st identity boot now settle revoke).process = some a) :
    a.leases = ∅ ∧ a.drains = [] := by
  have hopen : ∀ st disk, (s.openLoaded st disk identity boot now revoke).process = some a →
      a.leases = ∅ ∧ a.drains = [] := by
    intro st disk h
    unfold openLoaded at h
    split at h
    · split_ifs at h
      cases h
      exact ⟨rfl, rfl⟩
    · cases h
      exact ⟨rfl, rfl⟩
  unfold load at h
  split at h
  · cases settle with
    | ok => exact hopen _ _ h
    | notCommitted | ambiguous => cases hnone.symm.trans h
  · exact hopen _ _ h

/-! ## Answers -/

/-- The grant can be rotated now. -/
structure Rotatable (a : Authority) (g : ClientGrant) (now : Int) : Prop where
  live : g.revokedAt = 0
  absolute : now < g.absoluteExpiry
  idle : now < g.lastRefreshAt + g.idleTTL
  identity : g.identityGeneration = a.identity.generation
  limit : g.usedRefresh.length < maxUsedRefresh

variable {disk : List Registry}

theorem refresh_eq_rotateGrant {call : RefreshCall} (hissuable : a.issuable = .ok ())
    (hfind : findRefresh a.registry.grants (hash.hash call.token) call.order = some (c, g, false))
    (hrot : Rotatable a g call.now) :
    a.refresh hash life disk call = a.rotateGrant hash life disk c g call := by
  have hvalid : ¬ (g.revokedAt ≠ 0 ∨ g.absoluteExpiry ≤ call.now ∨
      g.lastRefreshAt + g.idleTTL ≤ call.now ∨ g.identityGeneration ≠ a.identity.generation) := by
    rintro (h | h | h | h)
    · exact h hrot.live
    · exact absurd hrot.absolute (Int.not_lt.mpr h)
    · exact absurd hrot.idle (Int.not_lt.mpr h)
    · exact h hrot.identity
  simp only [Authority.refresh, hissuable, hfind, if_neg hvalid, if_neg (Nat.not_le.mpr hrot.limit)]

/-- A `Refresh` that gets as far as the commit is a rotation. -/
theorem refresh_inv {call : RefreshCall}
    (h : (∃ resp, (a.refresh hash life disk call).2.2 = .ok resp) ∨
      (a.refresh hash life disk call).2.2 = .error .notCommitted) : ∃ c g, a.issuable = .ok () ∧
      findRefresh a.registry.grants (hash.hash call.token) call.order = some (c, g, false) ∧
      Rotatable a g call.now ∧
      a.refresh hash life disk call = a.rotateGrant hash life disk c g call := by
  unfold Authority.refresh at h
  split at h
  · next e he =>
    unfold issuable at he
    split at he
    · cases he
      simp at h
    · split_ifs at he
      cases he
      simp at h
  · next hissuable =>
    split at h
    · simp at h
    · simp [revokeRefresh] at h
    next c g hfind =>
    split at h
    · simp at h
    next hvalid =>
    split at h
    · simp [revokeRefresh] at h
    next hlimit =>
    have hrot : Rotatable a g call.now := by
      simp only [not_or, not_not, Int.not_le] at hvalid
      exact ⟨hvalid.1, hvalid.2.1, hvalid.2.2.1, hvalid.2.2.2, Nat.not_le.mp hlimit⟩
    exact ⟨c, g, hissuable, hfind, hrot, refresh_eq_rotateGrant hissuable hfind hrot⟩

/-- A lookup after a rotation and the pruning that follows it. -/
theorem rotateGrant_used {call : RefreshCall} (hcommit : call.commit = .ok) {st' : Registry}
    (hst' : st' ∈ (a.rotateGrant hash life disk c g call).1.registry ::
      (a.rotateGrant hash life disk c g call).2.1) {g' : ClientGrant}
    (hg' : st'.grants.lookup c = some g') : g.refreshHash ∈ g'.usedRefresh := by
  have hrotated : ∀ g', (a.setGrant c (rotate hash g call)).registry.grants.lookup c = some g' →
      g.refreshHash ∈ g'.usedRefresh := by
    intro g' hg'
    rw [setGrant, AList.lookup_insert] at hg'
    cases hg'
    simp [rotate]
  simp only [rotateGrant, hcommit, List.mem_cons, List.not_mem_nil, or_false] at hst'
  rcases hst' with rfl | rfl
  · exact hrotated g' (lookup_filter_eq_some.mp hg').1
  · exact hrotated g' hg'

theorem beginAction_ok {l : LeaseState} {call : BeginCall}
    {outcome : IdemOutcome} (h : (a.beginAction spentKey disk l call).2.2 = .ok outcome) :
    ∃ g, a.registry.grants.lookup l.clientID = some g ∧ g.revokedAt = 0 := by
  unfold Authority.beginAction at h
  split at h
  · cases h
  split at h
  · cases h
  next g hg =>
  split at h
  · cases h
  · next hrevoked => exact ⟨g, hg, not_not.mp hrevoked⟩

variable {lease : Nat}

theorem admit_ok {token perm : String} {now : Int}
    (h : a.admits hash lease token perm now = .ok (a', c)) :
    ∃ g exp, a.registry.grants.lookup c = some g ∧ g.revokedAt = 0 ∧
      a' = a.register lease c g exp := by
  revert h
  fun_cases a.admits hash lease token perm now with
  | case9 _ _ _ rec _ g hg hlive =>
    rintro ⟨⟩
    refine ⟨g, rec.exp, hg, ?_, rfl⟩
    by_contra hne
    exact hlive (.inl hne)
  | _ => rintro ⟨⟩

theorem hold_ok (h : a.hold lease c = .ok a') :
    ∃ g exp, a.registry.grants.lookup c = some g ∧ g.revokedAt = 0 ∧
      a' = a.register lease c g exp := by
  revert h
  fun_cases a.hold lease c with
  | case3 g hg hlive =>
    rintro ⟨⟩
    refine ⟨g, g.absoluteExpiry, hg, ?_, rfl⟩
    by_contra hne
    exact hlive (.inr hne)
  | _ => rintro ⟨⟩

/-! ## Steps -/

/-- The history only grows, by things never drawn before. -/
structure HistoryGrows (s s' : GrantState) : Prop where
  created : s.created ⊆ s'.created
  drawn : s'.drawn = s.drawn ∨ ∃ t c, s'.drawn = (t, c) :: s.drawn ∧ s.Undrawn t

theorem HistoryGrows.drawn_subset (h : HistoryGrows s s') : s.drawn ⊆ s'.drawn := by
  rcases h.drawn with heq | ⟨t, c, heq, -⟩
  · rw [heq]
    exact .refl _
  · rw [heq]
    exact List.subset_cons_self _ _

theorem Edit.known {st st' : Registry} (h : Edit hash s s' st st') (hgrows : HistoryGrows s s')
    (hknown : ∀ c ∈ st.grants, c ∈ s.created) : ∀ c ∈ st'.grants, c ∈ s'.created := by
  intro c hc
  obtain ⟨g', hg'⟩ := mem_iff_lookup.mp hc
  obtain ⟨o, hg, hcell⟩ := h.cell hg'
  have hmem : o.isSome → c ∈ s'.created := fun hsome =>
    hgrows.created (hknown c (AList.lookup_isSome.mp (hg ▸ hsome)))
  cases hcell with
  | same | actions | revoked | rotated => exact hmem rfl
  | created _ hcreated => exact hcreated

/-- The grant of the client is in memory, and live. -/
def GrantState.Live (s : GrantState) (c : String) : Prop :=
  ∃ a g, s.process = some a ∧ a.registry.grants.lookup c = some g ∧ g.revokedAt = 0

/-- What a step does to the leases and to the calls that wait for them. -/
inductive LeaseMove (s' : GrantState) (a a' : Authority) : Prop
  | same (hleases : a'.leases = a.leases) (hdrains : a'.drains = a.drains)
  | registered {lease : Nat} {l : LeaseState} {g : ClientGrant} (hnew : lease ∉ a.leases)
      (hg : a.registry.grants.lookup l.clientID = some g) (hlive : g.revokedAt = 0)
      (hdone : l.doneClosed = false) (hleases : a'.leases = a.leases.insert lease l)
      (hdrains : a'.drains = a.drains)
  /-- A lease that is closed is no longer registered. -/
  | changed {lease : Nat} {l l' : LeaseState} (hl : a.leases.lookup lease = some l)
      (hclient : l'.clientID = l.clientID) (hregistered : l'.registered → l.registered)
      (hdone : l'.doneClosed → l.doneClosed ∨ l'.registered = false)
      (hleases : a'.leases = a.leases.insert lease l') (hdrains : a'.drains = a.drains)
  /-- A revocation begins to wait; if its commit was durable, no content has the grant live. -/
  | revoking {c : String} {persisted : Bool} (hleases : a'.leases = a.leases)
      (hdrains : a'.drains = a.drains ++ [⟨c, a.leasesOf c, persisted, false⟩])
      (hmarked : ∀ g, a'.registry.grants.lookup c = some g → g.revokedAt ≠ 0)
      (hknown : c ∈ a.registry.grants)
      (hsealed : persisted → ∀ st ∈ s'.contents, ∀ g, st.grants.lookup c = some g →
        g.revokedAt ≠ 0)
  | returned {i : Nat} {d : Drain} (hd : a.drains[i]? = some d) (hleases : a'.leases = a.leases)
      (hdrains : a'.drains = a.drains.set i { d with returned := true })

/-- What a step answers. -/
inductive Logs (hash : TokenHash) (s s' : GrantState) : Prop
  | silent (h : s'.log = s.log)
  | enrolled {c r : String} (h : s'.log = .enrolled c r :: s.log) (hnew : s.Undrawn r)
      (hdrawn : (r, c) ∈ s'.drawn)
  | refreshed {t c n : String} {a : Authority} {g : ClientGrant}
      (h : s'.log = .refreshed t c n :: s.log) (ha : s.process = some a)
      (hg : a.registry.grants.lookup c = some g) (hlive : g.revokedAt = 0)
      (hcurrent : g.refreshHash = hash.hash t)
      (hused : ∀ st ∈ s'.contents, ∀ g, st.grants.lookup c = some g → hash.hash t ∈ g.usedRefresh)
      (hnew : s.Undrawn n) (hdrawn : (n, c) ∈ s'.drawn)
  | uncertain {t c n : String} (h : s'.log = .uncertain t c n :: s.log) (hnew : s.Undrawn n)
      (hdrawn : (n, c) ∈ s'.drawn)
  | live {o : Outcome} {c : String} (h : s'.log = o :: s.log)
      (ho : o = .admitted c ∨ o = .held c ∨ o = .began c) (hlive : s.Live c)
  /-- A revocation that was durable has found its leases done. -/
  | revoked {a : Authority} {i : Nat} {d : Drain} (h : s'.log = .revoked d.clientID :: s.log)
      (ha : s.process = some a) (hd : a.drains[i]? = some d) (hpersisted : d.persisted = true)
      (hdone : ∀ l ∈ d.leases, ∃ ls, a.leases.lookup l = some ls ∧ ls.doneClosed = true)

structure StepFacts (hash : TokenHash) (s s' : GrantState) : Prop where
  contents : FromContents hash s s' s'.contents
  grows : HistoryGrows s s'
  logs : Logs hash s s'
  moves : ∀ a', s'.process = some a' →
    (∃ a, s.process = some a ∧ LeaseMove s' a a') ∨ (a'.leases = ∅ ∧ a'.drains = [])

theorem StepFacts.unchanged {log : List Outcome} (ha : s.process = some a)
    (hregistry : a'.registry = a.registry)
    (hlogs : Logs hash s { s with process := some a', log })
    (hmove : LeaseMove { s with process := some a', log } a a') :
    StepFacts hash s { s with process := some a', log } where
  contents := by
    show FromContents hash s _ (a'.registry :: s.disk)
    rw [hregistry]
    exact (Leaves.refl ha).contents
  grows := ⟨.refl _, .inl rfl⟩
  logs := hlogs
  moves a'' ha'' := by
    cases ha''
    exact .inl ⟨a, ha, hmove⟩

theorem StepFacts.refl (ha : s.process = some a) : StepFacts hash s s := by
  obtain ⟨process, disk, created, drawn, log⟩ := s
  cases ha
  exact .unchanged rfl rfl (.silent rfl) (.same rfl rfl)

/-- A call that touches the leases of nobody. -/
theorem StepFacts.call (ha : s.process = some a) (hprocess : s'.process = some a')
    (hleaves : Leaves hash s s' a a' s'.disk) (hgrows : HistoryGrows s s')
    (hlogs : Logs hash s s') : StepFacts hash s s' where
  contents := by
    rw [GrantState.contents, hprocess]
    exact hleaves.contents
  grows := hgrows
  logs := hlogs
  moves a' ha' := by
    cases hprocess.symm.trans ha'
    exact .inl ⟨a, ha, .same hleaves.leases.1 hleaves.leases.2⟩

section

variable (ha : s.process = some a)

include ha

theorem redeem_facts {call : RedeemCall}
    (hnone : a.registry.grants.lookup call.clientID = none) (hnew : s.Unused call.clientID)
    (hundrawn : s.Undrawn call.refresh) : StepFacts hash s (s.redeem hash life a call) := by
  unfold GrantState.redeem
  dsimp only
  split
  · exact .call ha rfl (redeem_from ha hnone hnew List.mem_cons_self List.mem_cons_self)
      ⟨List.subset_cons_self _ _, .inr ⟨_, _, rfl, hundrawn⟩⟩
      (.enrolled rfl hundrawn List.mem_cons_self)
  · exact .call ha rfl (redeem_from ha hnone hnew List.mem_cons_self List.mem_cons_self)
      ⟨List.subset_cons_self _ _, .inr ⟨_, _, rfl, hundrawn⟩⟩ (.silent rfl)

theorem refresh_facts {call : RefreshCall}
    (hundrawn : s.Undrawn call.next) : StepFacts hash s (s.refresh hash life a call) := by
  unfold GrantState.refresh
  dsimp only
  split
  · next hfind =>
    refine .call ha rfl (refresh_from ha hundrawn fun c g reused h => ?_)
      ⟨.refl _, .inl rfl⟩ (.silent rfl)
    cases h.symm.trans hfind
  next c g reused hfind =>
  have hdrawn : ∀ c' g' reused' drawn, findRefresh a.registry.grants (hash.hash call.token)
      call.order = some (c', g', reused') → (call.next, c') ∈ (call.next, c) :: drawn := by
    intro c' g' reused' drawn h
    obtain ⟨rfl, -⟩ := Prod.mk.inj (mem_unique h hfind)
    exact List.mem_cons_self
  have hgrows : ∀ (process : Option Authority) disk log, HistoryGrows s
      ⟨process, disk, s.created, (call.next, c) :: s.drawn, log⟩ :=
    fun _ _ _ => ⟨.refl _, .inr ⟨_, _, rfl, hundrawn⟩⟩
  split
  · next resp hok =>
    obtain ⟨c', g', -, hfind', hrot, heq⟩ := refresh_inv (.inl ⟨resp, hok⟩)
    have hcommit : call.commit = .ok := by
      rw [heq, rotateGrant] at hok
      cases hcommit : call.commit with
      | ok => rfl
      | notCommitted | ambiguous => simp [hcommit] at hok
    obtain ⟨rfl, rfl, rfl⟩ : c = c' ∧ g = g' ∧ reused = false := by
      simpa using hfind.symm.trans hfind'
    obtain ⟨hg, hcurrent, -⟩ := findRefresh_eq_some hfind
    refine .call ha rfl (refresh_from ha hundrawn fun c' g' r h => hdrawn c' g' r _ h)
      (hgrows _ _ _) (.refreshed rfl ha hg hrot.live (hcurrent rfl) (fun st hst g' hg' => ?_) hundrawn
        List.mem_cons_self)
    rw [← hcurrent rfl]
    rw [heq] at hst
    exact rotateGrant_used hcommit hst hg'
  · exact .call ha rfl (refresh_from ha hundrawn fun c' g' r h => hdrawn c' g' r _ h)
      (hgrows _ _ _) (.uncertain rfl hundrawn List.mem_cons_self)
  · exact .call ha rfl (refresh_from ha hundrawn fun c' g' r h => hdrawn c' g' r _ h)
      (hgrows _ _ _) (.silent rfl)

theorem revoke_facts {c reason : String}
    {commit : Commit} : StepFacts hash s (s.revoke a c reason now commit) := by
  unfold revoke
  split
  · exact .refl ha
  next g hg =>
  have hmarked : ∀ g', (a.markRevoked c reason now g).registry.grants.lookup c = some g' →
      g'.revokedAt ≠ 0 := by
    intro g' hg'
    rw [Authority.markRevoked, setGrant, AList.lookup_insert] at hg'
    cases hg'
    exact markRevoked_revokedAt reason now g
  refine ⟨(Leaves.commitKept ha (.insert ?_) (by exact ⟨rfl, rfl⟩) commit).contents, ⟨.refl _, .inl rfl⟩,
    .silent rfl, fun a' ha' => .inl ⟨a, ha, ?_⟩⟩
  · rw [hg]
    exact .markRevoked c reason now g
  · cases ha'
    cases commit with
    | ok =>
      refine .revoking rfl rfl hmarked (mem_of_lookup hg) fun _ st hst g' hg' => ?_
      -- the content in memory is the only one on the disk
      have hall : st ∈ [(a.markRevoked c reason now g).registry,
        (a.markRevoked c reason now g).registry] := hst
      obtain rfl : st = (a.markRevoked c reason now g).registry := by simpa using hall
      exact hmarked g' hg'
    | notCommitted | ambiguous =>
      exact .revoking rfl rfl hmarked (mem_of_lookup hg) (by simp)

theorem drained_facts {i : Nat} {timeout : Bool}
    (h : s.drained a i timeout = some s') : StepFacts hash s s' := by
  unfold drained at h
  obtain ⟨d, hd, h⟩ := bind_eq_some_iff.mp h
  split at h
  · cases h
  split at h
  · cases h
    exact .unchanged ha rfl (.silent rfl) (.returned hd rfl rfl)
  split at h
  · next hall =>
    cases h
    split
    · next hpersisted =>
      refine .unchanged ha rfl (.revoked rfl ha hd hpersisted fun l hl => ?_)
        (.returned hd rfl rfl)
      obtain ⟨ls, hls, hdone⟩ := (any_eq_true _ _).mp (List.all_eq_true.mp hall l hl)
      exact ⟨ls, hls, hdone⟩
    · exact .unchanged ha rfl (.silent rfl) (.returned hd rfl rfl)
  · cases h

theorem setLease_facts {change : LeaseState → LeaseState}
    (h : (a.setLease lease change).map (fun a => s.moved (a, s.disk)) = some s')
    (hclient : ∀ l, (change l).clientID = l.clientID)
    (hregistered : ∀ l, (change l).registered → l.registered)
    (hdone : ∀ l, (change l).doneClosed → l.doneClosed ∨ (change l).registered = false) :
    StepFacts hash s s' := by
  obtain ⟨a', ha', rfl⟩ := map_eq_some_iff.mp h
  obtain ⟨l, hl, rfl⟩ := map_eq_some_iff.mp ha'
  exact .unchanged ha rfl (.silent rfl)
    (.changed hl (hclient l) (hregistered l) (hdone l) rfl rfl)

end

theorem step_facts (hknown : ∀ st ∈ s.contents, ∀ c ∈ st.grants, c ∈ s.created) {e : GrantEvent}
    (hstep : s.step hash life spentKey e = some s') : StepFacts hash s s' := by
  revert hstep
  fun_cases s.step hash life spentKey e with
  | case1 content identity boot now settle revoke ha =>
    intro hstep
    obtain ⟨st, hst, rfl⟩ := map_eq_some_iff.mp hstep
    obtain ⟨hcreated, hdrawn, hlog⟩ := load_frame s st identity boot now settle revoke
    refine ⟨load_from ha (List.mem_of_getElem? hst),
      ⟨hcreated ▸ .refl _, .inl hdrawn⟩, .silent hlog, fun a' ha' => .inr ?_⟩
    exact load_fresh ha ha'
  | case3 a call ha hfresh =>
    rintro ⟨⟩
    exact redeem_facts ha (AList.lookup_eq_none.mpr fun hmem =>
      hfresh.1 (hknown _ (registry_mem ha) _ hmem)) hfresh.1 hfresh.2
  | case5 a call ha hfresh =>
    rintro ⟨⟩
    exact refresh_facts ha hfresh.1
  | case7 a clientID reason now commit ha =>
    rintro ⟨⟩
    exact revoke_facts ha
  | case8 a i ha | case9 a i ha => exact drained_facts ha
  | case11 a _ _ _ _ ha =>
    rintro ⟨⟩
    exact .refl ha
  | case12 a lease token perm now ha hnew a' c hok =>
    rintro ⟨⟩
    obtain ⟨g, exp, hg, hlive, rfl⟩ := admit_ok hok
    exact .unchanged ha rfl
      (.live rfl (.inl rfl) ⟨a, g, ha, hg, hlive⟩) (.registered hnew hg hlive rfl rfl rfl)
  | case13 a lease perm grantEnded now ha =>
    intro hstep
    obtain ⟨l, hl, rfl⟩ := map_eq_some_iff.mp hstep
    split
    · exact .refl ha
    · exact .unchanged ha rfl (.silent rfl) (.same rfl rfl)
  | case15 a lease clientID ha =>
    rintro ⟨⟩
    exact .unchanged ha rfl (.silent rfl) (.same rfl rfl)
  | case16 a lease clientID ha hnew _ a' hok =>
    rintro ⟨⟩
    obtain ⟨g, exp, hg, hlive, rfl⟩ := hold_ok hok
    exact .unchanged ha rfl (.live rfl (.inr (.inl rfl)) ⟨a, g, ha, hg, hlive⟩)
      (.registered (fun h => hnew (.inl h)) hg hlive rfl rfl rfl)
  | case17 a lease ha =>
    exact fun hstep => setLease_facts ha hstep (fun _ => rfl) (fun _ h => h) fun _ h => .inl h
  | case18 a lease ha =>
    exact fun hstep => setLease_facts ha hstep (fun _ => rfl) nofun fun _ _ => .inr rfl
  | case19 a lease ha =>
    intro hstep
    refine setLease_facts ha hstep (fun l => ?_) (fun l h => ?_) fun l h => ?_
    · split <;> rfl
    · split at h
      · exact h
      · exact h
    · split at h
      · exact .inl h
      · next hregistered =>
        rw [if_neg hregistered]
        exact .inr (Bool.eq_false_iff.mpr hregistered)
  | case20 a lease call ha =>
    intro hstep
    obtain ⟨l, hl, rfl⟩ := map_eq_some_iff.mp hstep
    dsimp only
    split
    · next outcome hok =>
      obtain ⟨g, hg, hlive⟩ := beginAction_ok hok
      exact .call ha rfl (beginAction_from ha l call) ⟨.refl _, .inl rfl⟩
        (.live rfl (.inr (.inr rfl)) ⟨a, g, ha, hg, hlive⟩)
    · exact .call ha rfl (beginAction_from ha l call) ⟨.refl _, .inl rfl⟩ (.silent rfl)
  | case21 a now commit ha =>
    rintro ⟨⟩
    have hprune : Edit hash s (s.moved ((a.prune now).commitKept s.disk commit)) a.registry
      (a.prune now).registry := (Edit.refl a.registry).prune fun c g hg _ => hg
    exact .call ha rfl (.commitKept ha hprune ⟨rfl, rfl⟩ commit) ⟨.refl _, .inl rfl⟩ (.silent rfl)
  | case22 a ha =>
    rintro ⟨⟩
    exact .unchanged ha rfl (.silent rfl) (.same rfl rfl)
  | case23 =>
    rintro ⟨⟩
    exact ⟨.disk, ⟨.refl _, .inl rfl⟩, .silent rfl,
      fun a' ha' => nomatch ha'⟩
  | _ => rintro ⟨⟩

end Edits

end AgentMultiplexer.Direct
