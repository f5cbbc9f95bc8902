import AgentMultiplexer.Theory.Transition
import AgentMultiplexer.Direct.Idempotency

set_option autoImplicit false

/-! # A key runs once

Once a key has been admitted by a durable commit, it stays recorded, by its record or its tombstone,
in the memory of the running authority and in every content the disk may have, for as long as the
grant lives; `BeginAction` never answers `proceed` for a recorded key. The one way out is
`AbortAction`, which removes the record of an admitted action.

The argument is the same for every operation: each content after the operation comes from a content
before it by an edit that keeps what is recorded. The tombstones hold prefixes of hashes, so what
they say about the body is right as long as the prefixes of the keys in use do not collide; that a
key is recorded at all does not depend on it. -/

namespace AgentMultiplexer.Direct

open AList GoMap List Transition

/-! ## Edits of a grant -/

section Grant

variable (spentKey : String → String) (keys : Set String)

/-- The key is recorded, by its record or its tombstone, with a body that satisfies `B`. `keys` are
    the keys in use. -/
def Recorded (g : GrantRecord) (key : String) (B : String → Prop) : Prop :=
  (∃ r, g.idem.lookup key = some r ∧ B (spentBody r.bodyHash)) ∨
    (g.idem.lookup key = none ∧ ∃ body, g.spent.lookup (spentKey key) = some body ∧
      (Set.InjOn spentKey keys → B body))

/-- The edit keeps every record of a key that satisfies `P`, and adds keys in use only. -/
structure GrantKeeps (P : String → Prop) (g g' : GrantRecord) : Prop where
  recorded : ∀ key B, P key → key ∈ keys → (∀ k ∈ g.idem, k ∈ keys) →
    Recorded spentKey keys g key B → Recorded spentKey keys g' key B
  keys : (∀ k ∈ g.idem, k ∈ keys) → ∀ k ∈ g'.idem, k ∈ keys

variable {spentKey} {keys} {P : String → Prop} {g g' g'' : GrantRecord} {key : String}

theorem GrantKeeps.refl (g : GrantRecord) : GrantKeeps spentKey keys P g g :=
  ⟨fun _ _ _ _ _ h => h, fun h => h⟩

theorem GrantKeeps.trans (h : GrantKeeps spentKey keys P g g')
    (h' : GrantKeeps spentKey keys P g' g'') : GrantKeeps spentKey keys P g g'' where
  recorded k b hP hk hg hrec := h'.recorded k b hP hk (h.keys hg) (h.recorded k b hP hk hg hrec)
  keys hg := h'.keys (h.keys hg)

/-- A record becomes the tombstone of its key. Another key that shares the tombstone may rewrite
    what it says about the body, and only a collision makes it share one. -/
theorem compactRecord_keeps (now : Int) (g : GrantRecord) (key : String) :
    GrantKeeps spentKey keys P g (compactRecord spentKey now g key) := by
  unfold compactRecord
  split
  · exact .refl g
  next r hr =>
  split
  · exact .refl g
  split
  · exact .refl g
  refine ⟨fun k b _ hk hg hrec => ?_, fun hg k hk => hg k (mem_erase.mp hk).2⟩
  simp only [Recorded, lookup_erase_ite, lookup_insert_ite]
  by_cases hkey : k = key
  · -- the compacted key itself
    subst hkey
    rcases hrec with ⟨r', hr', hb⟩ | ⟨hnone, -⟩
    · cases hr.symm.trans hr'
      exact .inr ⟨if_pos rfl, _, if_pos rfl, fun _ => hb⟩
    · cases hr.symm.trans hnone
  · rcases hrec with ⟨r', hr', hb⟩ | ⟨hnone, body, hbody, hinj⟩
    · exact .inl ⟨r', by rw [if_neg hkey, hr'], hb⟩
    · refine .inr ⟨by rw [if_neg hkey, hnone], ?_⟩
      by_cases hspent : spentKey k = spentKey key
      · refine ⟨_, if_pos hspent, fun hin => ?_⟩
        exact absurd (hin hk (hg key (mem_of_lookup hr)) hspent) hkey
      · exact ⟨body, by rw [if_neg hspent, hbody], hinj⟩

theorem compactExpired_keeps (now : Int) (order : List String) (g : GrantRecord) :
    GrantKeeps spentKey keys P g (compactExpired spentKey now order g) := by
  unfold compactExpired
  induction order generalizing g with
  | nil => exact .refl g
  | cons key order ih => exact (compactRecord_keeps now g key).trans (ih _)

theorem compactExpired_revokedAt (spentKey : String → String) (now : Int) (order : List String)
    (g : GrantRecord) : (compactExpired spentKey now order g).revokedAt = g.revokedAt := by
  unfold compactExpired
  induction order generalizing g with
  | nil => rfl
  | cons key order ih =>
    rw [foldl_cons, ih]
    unfold compactRecord
    split
    · rfl
    split
    · rfl
    · split <;> rfl

/-- A recorded key is answered from its record, and another body hash with a conflict. -/
theorem Recorded.outcome {B : String → Prop} (h : Recorded spentKey keys g key B)
    (running : List String) (clientID bodyHash : String) (now : Int) :
    ∃ outcome, recordedOutcome spentKey running clientID g key bodyHash now = some outcome ∧
      outcome ≠ .proceed ∧
      (Set.InjOn spentKey keys → ¬ B (spentBody bodyHash) → outcome = .conflict) := by
  unfold recordedOutcome
  rcases h with ⟨r, hr, hB⟩ | ⟨hnone, body, hbody, hinj⟩
  · rw [hr]
    dsimp only
    by_cases hb : r.bodyHash = bodyHash
    · rw [if_neg (not_not.mpr hb)]
      have hany : ∀ o : IdemOutcome, o ≠ .proceed → ∃ outcome, some o = some outcome ∧
          outcome ≠ .proceed ∧ (Set.InjOn spentKey keys → ¬ B (spentBody bodyHash) →
            outcome = .conflict) := fun o ho =>
        ⟨o, rfl, ho, fun _ hne => absurd (hb ▸ hB) hne⟩
      split
      · exact hany _ (by simp)
      split
      · exact hany _ (by simp)
      · split <;> exact hany _ (by simp)
    · rw [if_pos hb]
      exact ⟨_, rfl, by simp, fun _ _ => rfl⟩
  · rw [hnone, hbody]
    dsimp only
    split
    · exact ⟨_, rfl, by simp, fun _ _ => rfl⟩
    · next heq =>
      exact ⟨_, rfl, by simp, fun hin hne => absurd (not_not.mp heq ▸ hinj hin) hne⟩

variable {idem : GoMap String IdemRecord}

/-- Nothing but the record of one key changes, which keeps its body hash, goes away with leave, or
    is the record of a key that was not recorded. -/
theorem GrantKeeps.setKey {key : String} (hother : ∀ k, k ≠ key → idem.lookup k = g.idem.lookup k)
    (hkeys : key ∈ idem → key ∈ keys ∨ key ∈ g.idem)
    (hkey : ∀ B, P key → Recorded spentKey keys g key B →
      Recorded spentKey keys { g with idem := idem } key B) :
    GrantKeeps spentKey keys P g { g with idem := idem } where
  recorded k b hP hk hg hrec := by
    by_cases hkk : k = key
    · subst hkk
      exact hkey b hP hrec
    · simpa only [Recorded, hother k hkk] using hrec
  keys hg k hk := by
    by_cases hkk : k = key
    · subst hkk
      exact (hkeys hk).elim id (hg k)
    · obtain ⟨r, hr⟩ := mem_iff_lookup.mp hk
      exact hg k (mem_of_lookup ((hother k hkk).symm.trans hr))

/-- The admission of a key that is not recorded, and its rollback. -/
theorem GrantKeeps.admits {running : List String} {clientID bodyHash : String} {now : Int}
    (hnone : recordedOutcome spentKey running clientID g key bodyHash now = none)
    (hkeys : key ∈ keys) (hother : ∀ k, k ≠ key → idem.lookup k = g.idem.lookup k) :
    GrantKeeps spentKey keys P g { g with idem := idem } := by
  refine .setKey hother (fun _ => .inl hkeys) fun b _ hrec => ?_
  obtain ⟨outcome, hsome, -⟩ := hrec.outcome running clientID bodyHash now
  cases hsome.symm.trans hnone

theorem GrantKeeps.change {r r' : IdemRecord} (hr : g.idem.lookup key = some r)
    (hbody : r'.bodyHash = r.bodyHash)
    (hother : ∀ k, k ≠ key → idem.lookup k = g.idem.lookup k) (hself : idem.lookup key = some r') :
    GrantKeeps spentKey keys P g { g with idem := idem } := by
  refine .setKey hother (fun _ => .inr (mem_of_lookup hr)) fun b _ hrec => ?_
  rcases hrec with ⟨r₀, hr₀, hb⟩ | ⟨hnone, -⟩
  · cases hr.symm.trans hr₀
    exact .inl ⟨r', hself, hbody ▸ hb⟩
  · cases hr.symm.trans hnone

theorem GrantKeeps.mapVal {f : String → IdemRecord → IdemRecord}
    (hf : ∀ k r, (f k r).bodyHash = r.bodyHash) :
    GrantKeeps spentKey keys P g { g with idem := g.idem.mapVal f } where
  recorded k b _ _ _ hrec := by
    rcases hrec with ⟨r, hr, hb⟩ | ⟨hnone, hspent⟩
    · exact .inl ⟨f k r, by rw [lookup_mapVal, hr]; rfl, (hf k r).symm ▸ hb⟩
    · exact .inr ⟨by rw [lookup_mapVal, hnone]; rfl, hspent⟩
  keys hg k hk := by
    obtain ⟨r, hr⟩ := mem_iff_lookup.mp hk
    obtain ⟨r₀, hr₀, -⟩ := lookup_mapVal_eq_some.mp hr
    exact hg k (mem_of_lookup hr₀)

end Grant

/-! ## Edits of a registry -/

section Registry

variable (spentKey : String → String) (keys : Set String)

/-- The grant is there and the key recorded, or the grant was revoked and is gone. -/
def Held (h : History) (st : StoreState) (clientID key : String) (B : String → Prop) : Prop :=
  (∃ g, st.grants.lookup clientID = some g ∧ Recorded spentKey keys g key B) ∨
    (st.grants.lookup clientID = none ∧ clientID ∈ h.revoked)

/-- The grants of a content are known, the revoked ones as such, and their keys are in use. -/
structure Good (h : History) (st : StoreState) : Prop where
  known : ∀ c ∈ st.grants, c ∈ h.created
  revoked : ∀ c g, st.grants.lookup c = some g → g.revokedAt ≠ 0 → c ∈ h.revoked
  keys : ∀ c g, st.grants.lookup c = some g → ∀ k ∈ g.idem, k ∈ keys

/-- Nothing is forgotten. -/
structure History.Grows (h h' : History) : Prop where
  created : h.created ⊆ h'.created
  revoked : h.revoked ⊆ h'.revoked

/-- The edit leads from a good content to a good one and keeps every key that satisfies `P`. -/
structure Keeps (P : String → String → Prop) (h h' : History) (st st' : StoreState) : Prop where
  held : ∀ c k B, P c k → c ∈ h.created → k ∈ keys → Good keys h st →
    Held spentKey keys h st c k B → Held spentKey keys h' st' c k B
  good : Good keys h st → Good keys h' st'

/-- Where a grant of the next content comes from: an edit of a grant, or a new id without records. -/
inductive GrantFrom (P : String → String → Prop) (h h' : History) (st : StoreState) (c : String)
    (g' : GrantRecord) : Prop
  | edited {g : GrantRecord} (hg : st.grants.lookup c = some g)
      (hkeeps : GrantKeeps spentKey keys (P c) g g')
      (hrev : g'.revokedAt ≠ 0 → g.revokedAt ≠ 0 ∨ c ∈ h'.revoked)
  | created (hnew : c ∉ h.created) (hc : c ∈ h'.created) (hidem : g'.idem = ∅)
      (hrev : g'.revokedAt ≠ 0 → c ∈ h'.revoked)

variable {spentKey} {keys} {P : String → String → Prop} {h h' h'' : History}
  {st st' st'' : StoreState}

theorem History.Grows.refl (h : History) : h.Grows h := ⟨.refl _, .refl _⟩

theorem Keeps.refl (hgrow : h.Grows h') : Keeps spentKey keys P h h' st st where
  held _ _ _ _ _ _ _ hold := hold.imp_right fun ⟨hnone, hr⟩ => ⟨hnone, hgrow.revoked hr⟩
  good hgood := ⟨fun c hc => hgrow.created (hgood.known c hc),
    fun c g hg hr => hgrow.revoked (hgood.revoked c g hg hr), hgood.keys⟩

theorem Keeps.trans (hfst : Keeps spentKey keys P h h' st st')
    (hsnd : Keeps spentKey keys P h' h'' st' st'') (hgrow : h.Grows h') :
    Keeps spentKey keys P h h'' st st'' where
  held c k b hP hc hk hgood hheld :=
    hsnd.held c k b hP (hgrow.created hc) hk (hfst.good hgood)
      (hfst.held c k b hP hc hk hgood hheld)
  good hgood := hsnd.good (hfst.good hgood)

section

variable (hgrow : h.Grows h')

include hgrow

variable {c : String}

/-- **Grant by grant**: a content whose grants come from the old one, where only revoked ones go. -/
theorem Keeps.of_grants
    (hfrom : ∀ c g', st'.grants.lookup c = some g' → GrantFrom spentKey keys P h h' st c g')
    (hgone : ∀ c g, c ∈ h.created → st.grants.lookup c = some g → st'.grants.lookup c = none →
      g.revokedAt ≠ 0) : Keeps spentKey keys P h h' st st' where
  held c k b hP hc hk hgood hold := by
    cases hlook : st'.grants.lookup c with
    | none =>
      refine .inr ⟨hlook, hgrow.revoked ?_⟩
      rcases hold with ⟨g, hg, -⟩ | ⟨-, hr⟩
      · exact hgood.revoked c g hg (hgone c g hc hg hlook)
      · exact hr
    | some g' =>
      refine .inl ⟨g', hlook, ?_⟩
      cases hfrom c g' hlook with
      | edited hg hkeeps =>
        rcases hold with ⟨g, hg', hrec⟩ | ⟨hnone, -⟩
        · cases hg.symm.trans hg'
          exact hkeeps.recorded k b hP hk (hgood.keys c _ hg) hrec
        · cases hg.symm.trans hnone
      | created hnew => exact absurd hc hnew
  good hgood := by
    refine ⟨fun c hc => ?_, fun c g' hg' hr => ?_, fun c g' hg' => ?_⟩
    · obtain ⟨g', hg'⟩ := mem_iff_lookup.mp hc
      cases hfrom c g' hg' with
      | edited hg => exact hgrow.created (hgood.known c (mem_of_lookup hg))
      | created _ hc => exact hc
    · cases hfrom c g' hg' with
      | edited hg _ hrev =>
        exact (hrev hr).elim (fun hold => hgrow.revoked (hgood.revoked c _ hg hold)) id
      | created _ _ _ hrev => exact hrev hr
    · cases hfrom c g' hg' with
      | edited hg hkeeps => exact hkeeps.keys (hgood.keys c _ hg)
      | created _ _ hidem =>
        rw [hidem]
        exact fun k hk => absurd hk (notMem_empty _)

theorem Keeps.setGrant {g g' : GrantRecord}
    (hg : st.grants.lookup c = some g) (hkeeps : GrantKeeps spentKey keys (P c) g g')
    (hrev : g'.revokedAt ≠ 0 → g.revokedAt ≠ 0 ∨ c ∈ h'.revoked) :
    Keeps spentKey keys P h h' st ⟨st.grants.insert c g'⟩ := by
  refine .of_grants hgrow (forall_insert (.edited hg hkeeps hrev) fun c' g₀ hg₀ => ?_)
    fun c' g₀ _ hg₀ hnone => ?_
  · exact .edited hg₀ (.refl g₀) .inl
  · rw [lookup_insert_ite] at hnone
    split_ifs at hnone
    cases hg₀.symm.trans hnone

theorem Keeps.mapVal {f : String → GrantRecord → GrantRecord}
    (hkeeps : ∀ c g, GrantKeeps spentKey keys (P c) g (f c g))
    (hrev : ∀ c g, st.grants.lookup c = some g → (f c g).revokedAt ≠ 0 →
      g.revokedAt ≠ 0 ∨ c ∈ h'.revoked) : Keeps spentKey keys P h h' st ⟨st.grants.mapVal f⟩ := by
  refine .of_grants hgrow (fun c g' hg' => ?_) fun c g _ hg hnone => ?_
  · obtain ⟨g, hg, rfl⟩ := lookup_mapVal_eq_some.mp hg'
    exact .edited hg (hkeeps c g) (hrev c g hg)
  · rw [lookup_mapVal, hg] at hnone
    cases hnone

theorem Keeps.prune (now : Int) (leased : List String) :
    Keeps spentKey keys P h h' st (pruneGrants now leased st) := by
  refine .of_grants hgrow (fun c g hg => ?_) fun c g _ hg hnone hzero => ?_
  · exact .edited (lookup_filter_eq_some.mp hg).1 (.refl g) .inl
  · have hkept : (pruneGrants now leased st).grants.lookup c = some g :=
      lookup_filter_eq_some.mpr ⟨hg, by simp [hzero]⟩
    cases hnone.symm.trans hkept

/-- A grant under a new id comes without records, or has come and gone. -/
theorem Keeps.newGrant {grants : GoMap String GrantRecord}
    (hc : c ∉ h.created) (hother : ∀ c', c' ≠ c → grants.lookup c' = st.grants.lookup c')
    (hself : ∀ g, grants.lookup c = some g → c ∈ h'.created ∧ g.idem = ∅ ∧
      (g.revokedAt ≠ 0 → c ∈ h'.revoked)) : Keeps spentKey keys P h h' st ⟨grants⟩ := by
  refine .of_grants hgrow (fun c' g hg => ?_) fun c' g hc' hg hnone => ?_
  · by_cases hcc : c' = c
    · subst hcc
      obtain ⟨hnew, hidem, hrev⟩ := hself g hg
      exact .created hc hnew hidem hrev
    · exact .edited ((hother c' hcc).symm.trans hg) (.refl g) .inl
  · have hne : c' ≠ c := fun heq => hc (heq ▸ hc')
    cases hg.symm.trans ((hother c' hne).symm.trans hnone)

theorem Keeps.addGrant {g : GrantRecord} (hc : c ∉ h.created)
    (hnew : c ∈ h'.created) (hidem : g.idem = ∅) (hrev : g.revokedAt ≠ 0 → c ∈ h'.revoked) :
    Keeps spentKey keys P h h' st ⟨st.grants.insert c g⟩ := by
  refine .newGrant hgrow hc (fun c' hc' => ?_) fun g' hg' => ?_
  · rw [lookup_insert_ite, if_neg hc']
  rw [lookup_insert] at hg'
  cases hg'
  exact ⟨hnew, hidem, hrev⟩

end

theorem markRevoked_keeps {P : String → Prop} (reason : String) (now : Int) (g : GrantRecord) :
    GrantKeeps spentKey keys P g (markRevoked reason now g) := by
  unfold markRevoked
  split
  · exact ⟨fun _ _ _ _ _ hold => hold, fun hold => hold⟩
  · exact .refl g

theorem revokeAll_keeps (hgrow : h.Grows h') (hall : st.grants.keys ⊆ h'.revoked)
    (reason : String) (now : Int) : Keeps spentKey keys P h h' st (revokeAll reason now st) :=
  .mapVal hgrow (fun _ g => markRevoked_keeps reason now g) fun _ _ hg _ =>
    .inr (hall (AList.mem_keys.mp (mem_of_lookup hg)))

/-- **`normalizeUndispatched`** settles records and removes none. -/
theorem normalizeUndispatched_keeps (hgrow : h.Grows h') (now : Int) :
    Keeps spentKey keys P h h' st (normalizeUndispatched now st) := by
  refine .mapVal hgrow (fun c g => .mapVal fun k r => ?_) fun c g _ hne => .inl hne
  split <;> rfl

end Registry

/-! ## Operations -/

section Operations

variable {spentKey : String → String} {keys : Set String} {P : String → String → Prop}
  {h h' : History} {p p' : Process} {disk : List StoreState}

/-- Every content an operation leaves is an old one of the disk or an edit of the memory. -/
structure ProcessKeeps (spentKey : String → String) (keys : Set String)
    (P : String → String → Prop) (h h' : History) (p : Process) (disk : List StoreState)
    (next : Process × List StoreState) : Prop where
  memory : Keeps spentKey keys P h h' p.registry next.1.registry
  disk : ∀ st ∈ next.2, st ∈ disk ∨ Keeps spentKey keys P h h' p.registry st

theorem commitKept_keeps (hkeep : Keeps spentKey keys P h h' p.registry p'.registry)
    (commit : Commit) : ProcessKeeps spentKey keys P h h' p disk (commitKept p' disk commit) := by
  cases commit with
  | ok => exact ⟨hkeep, fun st hst => .inr (mem_singleton.mp hst ▸ hkeep)⟩
  | notCommitted => exact ⟨hkeep, fun st hst => .inl hst⟩
  | ambiguous =>
    exact ⟨hkeep, forall_mem_cons.mpr ⟨.inr hkeep, fun _ => .inl⟩⟩

theorem ProcessKeeps.uncommitted (hkeep : Keeps spentKey keys P h h' p.registry p'.registry) :
    ProcessKeeps spentKey keys P h h' p disk (p', disk) :=
  ⟨hkeep, fun _ hst => .inl hst⟩

theorem ProcessKeeps.same (hreg : p'.registry = p.registry) :
    ProcessKeeps spentKey keys P h h p disk (p', disk) :=
  .uncommitted (hreg ▸ .refl (.refl h))

theorem beginAction_keeps (call : BeginCall) (hkey : call.key ∈ keys) :
    ProcessKeeps spentKey keys P h h p disk
      ((beginAction spentKey p disk call).1, (beginAction spentKey p disk call).2.1) := by
  unfold beginAction
  split
  · exact .same rfl
  split
  · exact .same rfl
  next g hg =>
  split
  · exact .same rfl
  next hlive =>
  dsimp only
  have hrev := compactExpired_revokedAt spentKey call.now call.order g
  generalize hgc : compactExpired spentKey call.now call.order g = gc at hrev
  have hzero : gc.revokedAt = 0 := hrev.trans (not_not.mp hlive)
  have hcompact : Keeps spentKey keys P h h p.registry (p.setGrant call.clientID gc).registry :=
    .setGrant (.refl h) hg (hgc ▸ compactExpired_keeps _ _ g) fun hne => absurd hzero hne
  split
  · exact .uncommitted hcompact
  next hnone =>
  split
  · exact .uncommitted hcompact
  split
  · exact .uncommitted hcompact
  split
  · exact .uncommitted hcompact
  -- the admission, and its rollback, edit the compacted grant
  have hlook : (p.setGrant call.clientID gc).registry.grants.lookup
      call.clientID = some gc := lookup_insert _
  have hedit : ∀ idem : GoMap String IdemRecord,
      (∀ k, k ≠ call.key → idem.lookup k = gc.idem.lookup k) →
      Keeps spentKey keys P h h p.registry ((p.setGrant call.clientID gc).setGrant call.clientID
          { gc with idem := idem }).registry := fun idem hother =>
    hcompact.trans (.setGrant (.refl h) hlook (.admits hnone hkey hother)
      fun hne => absurd hzero hne) (.refl h)
  have hadmit := hedit (gc.idem.insert call.key (admission p.boot call)) fun _ => lookup_insert_ne
  unfold admits
  split
  · have hkept : ProcessKeeps spentKey keys P h h p disk (commitKept _ disk .ok) :=
      commitKept_keeps hadmit .ok
    exact ⟨hkept.memory, hkept.disk⟩
  · refine .uncommitted (hedit _ fun k hk => ?_)
    rw [lookup_erase_ne hk, lookup_insert_ne hk]
  · have hkept : ProcessKeeps spentKey keys P h h p disk (commitKept _ disk .ambiguous) :=
      commitKept_keeps hadmit .ambiguous
    exact ⟨hkept.memory, hkept.disk⟩

theorem updateRecord_keeps {clientID key : String} {change undo : IdemRecord → IdemRecord}
    (hchange : ∀ r, (change r).bodyHash = r.bodyHash)
    (hundo : ∀ r, (undo r).bodyHash = r.bodyHash) (commit : Commit) :
    ProcessKeeps spentKey keys P h h p disk
      (updateRecord p disk clientID key change undo commit) := by
  unfold updateRecord
  split
  · exact .same rfl
  next g hg =>
  split
  · exact .same rfl
  next r hr =>
  have hput : ∀ r' : IdemRecord, r'.bodyHash = r.bodyHash → Keeps spentKey keys P h h p.registry
        (p.setGrant clientID { g with idem := g.idem.insert key r' }).registry :=
    fun r' hbody => .setGrant (.refl h) hg
      (.change hr hbody (fun _ => lookup_insert_ne) (lookup_insert _)) fun hne => .inl hne
  split
  · exact .uncommitted (hput _ (hundo r))
  · exact commitKept_keeps (hput _ (hchange r)) _

/-- **`FinishAction`, `FinishResult`, `FinishCreated`, `AmbiguousAction`.** -/
theorem endAction_keeps (clientID key : String) (ending : Ending) (now : Int) (commit : Commit) :
    ProcessKeeps spentKey keys P h h p disk (endAction p disk clientID key ending now commit) := by
  have hupdate : ProcessKeeps spentKey keys P h h
      { p with running := p.running.filter fun k => k ≠ runKey clientID key } disk
      (endAction p disk clientID key ending now commit) := by
    refine updateRecord_keeps ?_ (by intro r; rfl) commit
    intro r
    dsimp only
    split <;> cases ending <;> rfl
  -- the running set is not part of the registry
  exact ⟨hupdate.memory, hupdate.disk⟩

/-- The step is an `AbortAction` that removes the admitted record of this key. -/
def Aborts (s : DirectState) (e : DirectEvent) (clientID key : String) : Prop :=
  ∃ commit, e = .abort clientID key commit ∧ commit ≠ .notCommitted ∧
    ∃ p g r, s.process = some p ∧ p.registry.grants.lookup clientID = some g ∧
      g.idem.lookup key = some r ∧ r.state = .admitted

/-- **`AbortAction`** removes one record at most, the one it is called for. -/
theorem abortAction_keeps {s : DirectState} (hp : s.process = some p) (clientID key : String)
    (commit : Commit) (hP : ∀ c k, P c k → ¬ Aborts s (.abort clientID key commit) c k) :
    ProcessKeeps spentKey keys P h h p disk (abortAction p disk clientID key commit) := by
  unfold abortAction
  dsimp only
  split
  · exact .same rfl
  next g hg =>
  split
  · exact .same rfl
  next r hr =>
  split
  · exact .same rfl
  next hadmitted =>
  split
  · -- rolled back: the record is put back
    refine .uncommitted (.setGrant (.refl h) hg (.change hr rfl (fun k hk => ?_)
      (lookup_insert _)) fun hne => .inl hne)
    rw [lookup_insert_ne hk, lookup_erase_ne hk]
  next c hc =>
  have hgone : P clientID key → False := fun hPk =>
    hP clientID key hPk ⟨_, rfl, hc, p, g, r, hp, hg, hr, not_not.mp hadmitted⟩
  have hedit : GrantKeeps spentKey keys (P clientID) g { g with idem := g.idem.erase key } :=
    .setKey (fun _ => lookup_erase_ne) (fun hmem => absurd rfl (mem_erase.mp hmem).1)
      fun _ hPk _ => (hgone hPk).elim
  exact commitKept_keeps (.setGrant (.refl h) hg hedit fun hne => .inl hne) _

end Operations

/-! ## Steps -/

namespace DirectState

/-- What the memory holds and what the disk may hold. -/
def contents (s : DirectState) : List StoreState :=
  s.process.toList.map Process.registry ++ s.disk

variable {spentKey : String → String} {keys : Set String} {P : String → String → Prop}
  {s t : DirectState} {p : Process} {e : DirectEvent} {st : StoreState}

theorem mem_contents :
    st ∈ s.contents ↔ (∃ p, s.process = some p ∧ st = p.registry) ∨ st ∈ s.disk := by
  cases hp : s.process with
  | none => simp [contents, hp]
  | some p => simp [contents, hp]

/-- After a commit that is in place, the disk has the memory and nothing else. -/
theorem mem_contents_moved {next : Process × List StoreState}
    (hdisk : next.2 = [next.1.registry]) (hst : st ∈ (s.moved next).contents) :
    st = next.1.registry := by
  rcases mem_contents.mp hst with ⟨q, hq, rfl⟩ | hst
  · exact congrArg Process.registry (Option.some.inj hq).symm
  · exact mem_singleton.mp (hdisk ▸ hst)

/-- Every content of `t` comes from one of `s` by an edit that keeps what satisfies `P`, and the
    memory of a process from what it was. -/
structure ContentsKeep (spentKey : String → String) (keys : Set String)
    (P : String → String → Prop) (s t : DirectState) : Prop where
  grows : s.history.Grows t.history
  source : ∀ st' ∈ t.contents, ∃ st ∈ s.contents,
    Keeps spentKey keys P s.history t.history st st'
  memory : ∀ p q, s.process = some p → t.process = some q →
    Keeps spentKey keys P s.history t.history p.registry q.registry

theorem ContentsKeep.moved {next : Process × List StoreState} (hp : s.process = some p)
    (hgrow : s.history.Grows t.history)
    (hnext : ProcessKeeps spentKey keys P s.history t.history p s.disk next) :
    ContentsKeep spentKey keys P s (t.moved next) := by
  have hold : p.registry ∈ s.contents := mem_contents.mpr (.inl ⟨p, hp, rfl⟩)
  refine ⟨hgrow, fun st' hst' => ?_, fun p' q hp' hq => ?_⟩
  · rcases mem_contents.mp hst' with ⟨q, hq, rfl⟩ | hst'
    · cases hq
      exact ⟨p.registry, hold, hnext.memory⟩
    · rcases hnext.disk st' hst' with hdisk | hkeep
      · exact ⟨st', mem_contents.mpr (.inr hdisk), .refl hgrow⟩
      · exact ⟨p.registry, hold, hkeep⟩
  · cases hp.symm.trans hp'
    cases hq
    exact hnext.memory

theorem redeem_keeps {clientID : String} (hp : s.process = some p)
    (hc : clientID ∉ s.history.created) (now : Int) (commit : Commit) :
    ContentsKeep spentKey keys P s ((s.create clientID).redeem p clientID now commit) := by
  have hcreated : clientID ∈ clientID :: s.history.created := mem_cons_self
  have hgrow : s.history.Grows (s.create clientID).history :=
    ⟨subset_cons_self _ _, .refl _⟩
  cases commit with
  | ok =>
    exact .moved hp hgrow
      (commitKept_keeps (.addGrant hgrow hc hcreated rfl fun hne => absurd rfl hne) .ok)
  | notCommitted =>
    refine .moved hp hgrow (.uncommitted (.newGrant hgrow hc (fun c hne => ?_) ?_))
    · rw [lookup_erase_ite, if_neg hne, lookup_insert_ite, if_neg hne]
    · intro g hg
      cases (lookup_erase _ _).symm.trans hg
  | ambiguous =>
    -- the memory has the grant revoked, the disk may have it as it was created
    have hgrow' : s.history.Grows ((s.create clientID).revoke [clientID]).history :=
      ⟨subset_cons_self _ _, subset_cons_self _ _⟩
    refine .moved hp hgrow' ⟨.addGrant hgrow' hc hcreated ?_ fun _ => mem_cons_self,
      forall_mem_cons.mpr ⟨?_, fun _ => .inl⟩⟩
    · rfl
    · exact .inr (.addGrant hgrow' hc hcreated rfl fun hne => absurd rfl hne)

/-- What was revoked stays so, and these ids join. -/
theorem grows_revoke (s : DirectState) (clientIDs : List String) :
    s.history.Grows (s.revoke clientIDs).history :=
  ⟨.refl _, subset_append_right _ _⟩

theorem resetIdentity_keeps (hp : s.process = some p) (now : Int) (commit : Commit) :
    ContentsKeep spentKey keys P s (s.resetIdentity p now commit) := by
  have hgrow := s.grows_revoke p.registry.grants.keys
  have hkept : ProcessKeeps spentKey keys P s.history _ p s.disk
      (commitKept { p with registry := revokeAll "identity reset" now p.registry } s.disk commit) :=
    commitKept_keeps (revokeAll_keeps hgrow (subset_append_left _ _) _ now) commit
  exact .moved hp hgrow ⟨hkept.memory, hkept.disk⟩

theorem mem_saved {st' : StoreState} {disk : List StoreState} {commit : Commit}
    (h : st' ∈ saved st disk commit) : (commit ≠ .notCommitted ∧ st' = st) ∨ st' ∈ disk := by
  cases commit with
  | ok => exact .inl ⟨nofun, mem_singleton.mp h⟩
  | notCommitted => exact .inr h
  | ambiguous => exact (mem_cons.mp h).imp_left fun heq => ⟨nofun, heq⟩

/-- **The end of `loadAuthority`**, on a content that came from the disk by an edit. -/
theorem openLoaded_keeps {st' : StoreState} {disk : List StoreState}
    (hp : s.process = none) (hst : st ∈ s.disk)
    (hedit : Keeps spentKey keys P s.history s.history st st')
    (hdisk : ∀ st₀ ∈ disk, st₀ ∈ s.disk ∨ st₀ = st') (boot : String) (now : Int)
    (identityChanged : Bool) (revoke : Commit) :
    ContentsKeep spentKey keys P s (s.openLoaded st' disk boot now identityChanged revoke) := by
  have hmem : ∀ st₀ ∈ s.disk, st₀ ∈ s.contents := fun st₀ h₀ => mem_contents.mpr (.inr h₀)
  have hnew : ∀ p, s.process = some p → False := fun p hp' => by cases hp.symm.trans hp'
  unfold openLoaded
  split
  · have hgrow := s.grows_revoke st'.grants.keys
    have hrevoked : Keeps spentKey keys P s.history (s.revoke st'.grants.keys).history st
        (revokeAll "identity changed" now st') :=
      hedit.trans (revokeAll_keeps hgrow (subset_append_left _ _) _ now) (.refl _)
    refine ⟨hgrow, fun st₀ h₀ => ?_, fun p _ hp' _ => (hnew p hp').elim⟩
    rcases mem_contents.mp h₀ with ⟨q, hq, rfl⟩ | h₀
    · split_ifs at hq
      cases hq
      exact ⟨st, hmem st hst, hrevoked⟩
    rcases mem_saved h₀ with ⟨-, rfl⟩ | h₀
    · exact ⟨st, hmem st hst, hrevoked⟩
    -- what was on the disk, or what the settling of the records left there
    rcases hdisk st₀ h₀ with h₀ | rfl
    · exact ⟨st₀, hmem st₀ h₀, .refl hgrow⟩
    · exact ⟨st, hmem st hst, hedit.trans (.refl hgrow) (.refl _)⟩
  · refine ⟨.refl _, fun st₀ h₀ => ?_, fun p _ hp' _ => (hnew p hp').elim⟩
    rcases mem_contents.mp h₀ with ⟨q, hq, rfl⟩ | h₀
    · cases hq
      exact ⟨st, hmem st hst, hedit⟩
    · rcases hdisk st₀ h₀ with h₀ | rfl
      · exact ⟨st₀, hmem st₀ h₀, .refl (.refl _)⟩
      · exact ⟨st, hmem st hst, hedit⟩

theorem load_keeps (hp : s.process = none) (hst : st ∈ s.disk) (boot : String)
    (now : Int) (settle : Commit) (identityChanged : Bool) (revoke : Commit) :
    ContentsKeep spentKey keys P s (s.load st boot now settle identityChanged revoke) := by
  unfold load
  split
  · have hedit : Keeps spentKey keys P s.history s.history st (normalizeUndispatched now st) :=
      normalizeUndispatched_keeps (.refl _) now
    split
    · exact openLoaded_keeps hp hst hedit (fun st₀ h₀ => .inr (mem_singleton.mp h₀)) ..
    refine ⟨.refl _, fun st₀ h₀ => ?_, fun p _ hp' _ => by cases hp.symm.trans hp'⟩
    rcases mem_contents.mp h₀ with ⟨q, hq, -⟩ | h₀
    · cases hp.symm.trans hq
    rcases mem_saved h₀ with ⟨-, rfl⟩ | h₀
    · exact ⟨st, mem_contents.mpr (.inr hst), hedit⟩
    · exact ⟨st₀, mem_contents.mpr (.inr h₀), .refl (.refl _)⟩
  · exact openLoaded_keeps hp hst (.refl (.refl _)) (fun st₀ h₀ => .inl h₀) ..

/-- **Every step** but an abort keeps every key, and what an abort removes is one record. -/
theorem step_keeps (hstep : step spentKey s e = some t)
    (hkey : ∀ call, e = .begin call → call.key ∈ keys) :
    ContentsKeep spentKey keys (fun c k => ¬ Aborts s e c k) s t := by
  have hgrow : s.history.Grows s.history := .refl _
  revert hstep
  fun_cases step spentKey s e with
  | case1 content boot now settle identityChanged revoke hp =>
    intro hstep
    obtain ⟨st, hst, rfl⟩ := Option.map_eq_some_iff.mp hstep
    exact load_keeps hp (mem_of_getElem? hst) ..
  | case3 p call hp =>
    rintro ⟨⟩
    exact .moved hp hgrow (beginAction_keeps call (hkey call rfl))
  | case4 p clientID key ending now commit hp =>
    rintro ⟨⟩
    exact .moved hp hgrow (endAction_keeps ..)
  | case5 p clientID key commit hp =>
    rintro ⟨⟩
    exact .moved hp hgrow (abortAction_keeps hp _ _ _ fun _ _ hP => hP)
  | case6 p clientID key leaseEnded now commit hp =>
    rintro ⟨⟩
    refine .moved hp hgrow ?_
    fun_cases Direct.markDispatched with
    | case4 => exact updateRecord_keeps (by intro r; rfl) (by intro r; rfl) commit
    | _ => exact .same rfl
  | case7 p clientID key creationID verb commit hp =>
    rintro ⟨⟩
    refine .moved hp hgrow ?_
    fun_cases Direct.ensureCreationID with
    | case4 => exact updateRecord_keeps (by intro r; rfl) (by intro r; rfl) commit
    | _ => exact .same rfl
  | case9 p clientID now commit hp hnew =>
    rintro ⟨⟩
    exact redeem_keeps hp (fun hc => hnew (.inr hc)) now commit
  | case10 =>
    rintro ⟨⟩
    refine ⟨hgrow, fun st hst => ⟨st, hst, .refl hgrow⟩, fun p q hp hq => ?_⟩
    cases hp.symm.trans hq
    exact .refl hgrow
  | case11 p clientID reason now commit hp g hg =>
    rintro ⟨⟩
    have hgrow : s.history.Grows (s.revoke [clientID]).history :=
      ⟨.refl _, subset_cons_self _ _⟩
    exact .moved hp hgrow (commitKept_keeps (.setGrant hgrow hg
      (markRevoked_keeps reason now g) fun _ => .inr mem_cons_self) commit)
  | case12 p now commit hp =>
    rintro ⟨⟩
    exact resetIdentity_keeps hp now commit
  | case13 p now leased hp =>
    rintro ⟨⟩
    exact .moved hp hgrow (.uncommitted (.prune hgrow now leased))
  | case14 p commit hp =>
    rintro ⟨⟩
    exact .moved hp hgrow (commitKept_keeps (.refl hgrow) commit)
  | case15 =>
    rintro ⟨⟩
    refine ⟨hgrow, fun st hst => ⟨st, ?_, .refl hgrow⟩, nofun⟩
    rcases mem_contents.mp hst with ⟨q, hq, -⟩ | hst
    · cases hq
    · exact mem_contents.mpr (.inr hst)
  | _ => rintro ⟨⟩

end DirectState

end AgentMultiplexer.Direct
