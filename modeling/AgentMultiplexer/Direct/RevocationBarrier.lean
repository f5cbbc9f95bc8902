import AgentMultiplexer.Direct.Rotation

set_option autoImplicit false

/-! # The revocation barrier

A durable revocation leaves no content of the registry in which its grant is live, and no later step
brings one back. So from its critical section on no lease of the grant is registered, and when the
leases it found are done, none is left. -/

namespace AgentMultiplexer.Direct

open GoMap List Transition

variable {hash : TokenHash} {life : Lifetimes} {spentKey : String → String}

/-- The client for which an answer lets something happen. -/
def Outcome.admits : Outcome → Option String
  | .refreshed _ c _ => some c
  | .admitted c => some c
  | .held c => some c
  | .began c => some c
  | _ => none

/-- A revocation of the grant was made durable, and has returned or waits for leases. -/
def Sealed (s : GrantState) (c : String) : Prop :=
  .revoked c ∈ s.log ∨
    ∃ a d, s.process = some a ∧ d ∈ a.drains ∧ d.persisted = true ∧ d.clientID = c

structure BarrierInv (s : GrantState) : Prop where
  known : ∀ st ∈ s.contents, ∀ c ∈ st.grants, c ∈ s.created
  created : ∀ c, Sealed s c → c ∈ s.created
  revoked : ∀ c, Sealed s c → ∀ st ∈ s.contents, ∀ g, st.grants.lookup c = some g → g.revokedAt ≠ 0
  /-- A durable revocation waits for every lease of its grant. -/
  waited : ∀ a, s.process = some a → ∀ d ∈ a.drains, d.persisted = true → ∀ i l,
    a.leases.lookup i = some l → l.clientID = d.clientID → l.registered = true → i ∈ d.leases
  closed : ∀ a, s.process = some a → ∀ i l, a.leases.lookup i = some l → l.doneClosed = true →
    l.registered = false
  released : ∀ c, .revoked c ∈ s.log → ∀ a, s.process = some a → ∀ i l,
    a.leases.lookup i = some l → l.clientID = c → l.registered = false
  order : ∀ c l₁ l₂, s.log = l₁ ++ .revoked c :: l₂ → ∀ o ∈ l₁, o.admits ≠ some c

section Step

variable {s s' : GrantState} {a a' : Authority}

variable {c : String}

theorem CellEdit.stays_revoked {o : Option ClientGrant} {g' : ClientGrant}
    (h : CellEdit hash s s' c o (some g')) (hcreated : c ∈ s.created)
    (hrevoked : ∀ g, o = some g → g.revokedAt ≠ 0) : g'.revokedAt ≠ 0 := by
  cases h with
  | same => exact hrevoked g' rfl
  | actions heq => exact heq ▸ hrevoked _ rfl
  | revoked hne => exact hne
  | rotated hlive => exact absurd hlive (hrevoked _ rfl)
  | created hnew => exact absurd hcreated hnew

theorem BarrierInv.not_sealed (h : BarrierInv s) (hlive : s.Live c) : ¬ Sealed s c := by
  intro hsealed
  obtain ⟨a, g, ha, hg, hzero⟩ := hlive
  exact h.revoked c hsealed _ (registry_mem ha) g hg hzero

/-- The calls that wait after a step waited before it, or began to in it. -/
theorem LeaseMove.drains (h : LeaseMove s' a a') {d : Drain} (hd : d ∈ a'.drains) :
    (∃ d₀ ∈ a.drains, d₀.clientID = d.clientID ∧ d₀.leases = d.leases ∧
        d₀.persisted = d.persisted) ∨
      (d.leases = a.leasesOf d.clientID ∧ d.clientID ∈ a.registry.grants ∧
        a'.leases = a.leases ∧ (d.persisted = true → ∀ st ∈ s'.contents, ∀ g,
          st.grants.lookup d.clientID = some g → g.revokedAt ≠ 0)) := by
  cases h with
  | same _ hdrains | registered _ _ _ _ _ hdrains | changed _ _ _ _ _ hdrains =>
    exact .inl ⟨d, hdrains ▸ hd, rfl, rfl, rfl⟩
  | revoking hleases hdrains _ hknown hsealed =>
    rw [hdrains] at hd
    rcases mem_append.mp hd with hd | hd
    · exact .inl ⟨d, hd, rfl, rfl, rfl⟩
    · obtain rfl := mem_singleton.mp hd
      exact .inr ⟨rfl, hknown, hleases, hsealed⟩
  | @returned i d₀ hd₀ _ hdrains =>
    rw [hdrains] at hd
    rcases mem_or_eq_of_mem_set hd with hd | rfl
    · exact .inl ⟨d, hd, rfl, rfl, rfl⟩
    · exact .inl ⟨d₀, mem_of_getElem? hd₀, rfl, rfl, rfl⟩

/-- A lease that is registered after a step was registered before it, or is new and of a live
    grant. -/
theorem LeaseMove.lease (h : LeaseMove s' a a') {i : Nat} {l' : LeaseState}
    (hl' : a'.leases.lookup i = some l') :
    (∃ l, a.leases.lookup i = some l ∧ l'.clientID = l.clientID ∧
        (l'.registered = true → l.registered = true) ∧
        (l'.doneClosed = true → l.doneClosed = true ∨ l'.registered = false)) ∨
      (l'.doneClosed = false ∧
        ∃ g, a.registry.grants.lookup l'.clientID = some g ∧ g.revokedAt = 0) := by
  cases h with
  | same hleases | revoking hleases | returned _ hleases =>
    exact .inl ⟨l', hleases ▸ hl', rfl, fun h => h, fun h => .inl h⟩
  | @registered lease l g _ hg hlive hdone hleases =>
    rw [hleases] at hl'
    rcases lookup_insert_eq_some.mp hl' with ⟨-, rfl⟩ | ⟨-, hl'⟩
    · exact .inr ⟨hdone, g, hg, hlive⟩
    · exact .inl ⟨l', hl', rfl, fun h => h, fun h => .inl h⟩
  | @changed lease l l₁ hl hclient hregistered hdone hleases =>
    rw [hleases] at hl'
    rcases lookup_insert_eq_some.mp hl' with ⟨rfl, rfl⟩ | ⟨-, hl'⟩
    · exact .inl ⟨l, hl, hclient, hregistered, hdone⟩
    · exact .inl ⟨l', hl', rfl, fun h => h, fun h => .inl h⟩

theorem mem_leasesOf {i : Nat} {l : LeaseState} (hl : a.leases.lookup i = some l)
    (hclient : l.clientID = c) (hregistered : l.registered = true) : i ∈ a.leasesOf c :=
  mem_map.mpr ⟨⟨i, l⟩, List.mem_filter.mpr ⟨mem_entries_iff.mpr hl, by
    simp [hclient, hregistered]⟩, rfl⟩

/-- What a step answers lets something happen only for a client whose grant is live. -/
theorem Logs.admits (h : Logs hash s s') :
    s'.log = s.log ∨ ∃ o, s'.log = o :: s.log ∧ ∀ c, o.admits = some c → s.Live c := by
  cases h with
  | silent heq => exact .inl heq
  | enrolled heq | uncertain heq | revoked heq => exact .inr ⟨_, heq, fun c hc => nomatch hc⟩
  | refreshed heq ha hg hlive =>
    refine .inr ⟨_, heq, fun c hc => ?_⟩
    cases hc
    exact ⟨_, _, ha, hg, hlive⟩
  | live heq ho hlive =>
    refine .inr ⟨_, heq, fun c hc => ?_⟩
    rcases ho with rfl | rfl | rfl
    all_goals
      cases hc
      exact hlive

/-- A revocation that has returned had returned before, or was a durable one whose leases were
    done. -/
theorem Logs.revoked_cases (h : Logs hash s s') (hmem : .revoked c ∈ s'.log) :
    .revoked c ∈ s.log ∨ ∃ a d, s.process = some a ∧ d ∈ a.drains ∧ d.persisted = true ∧
      d.clientID = c ∧ ∀ i ∈ d.leases, ∃ l, a.leases.lookup i = some l ∧ l.doneClosed = true := by
  have hadded : ∀ o, s'.log = o :: s.log → o ≠ .revoked c → .revoked c ∈ s.log :=
    fun o heq hne => by
      rw [heq] at hmem
      exact (mem_cons.mp hmem).resolve_left fun heq => hne heq.symm
  cases h with
  | silent heq => exact .inl (heq ▸ hmem)
  | enrolled heq | refreshed heq | uncertain heq => exact .inl (hadded _ heq nofun)
  | live heq ho =>
    refine .inl (hadded _ heq ?_)
    rcases ho with rfl | rfl | rfl <;> exact nofun
  | revoked heq ha hd hpersisted hdone =>
    rw [heq] at hmem
    rcases mem_cons.mp hmem with heq | hmem
    · cases heq
      exact .inr ⟨_, _, ha, mem_of_getElem? hd, hpersisted, rfl, hdone⟩
    · exact .inl hmem

/-- What is sealed after a step was sealed before it, or the step has made it so. -/
theorem BarrierInv.sealed_of_step (h : BarrierInv s) (hfacts : StepFacts hash s s')
    (hsealed : Sealed s' c) :
    Sealed s c ∨ (c ∈ s.created ∧ ∀ st ∈ s'.contents, ∀ g, st.grants.lookup c = some g →
      g.revokedAt ≠ 0) := by
  rcases hsealed with hlog | ⟨a', d, ha', hd, hpersisted, hclient⟩
  · rcases hfacts.logs.revoked_cases hlog with hold | ⟨a, d, ha, hd, hpersisted, hclient, -⟩
    · exact .inl (.inl hold)
    · exact .inl (.inr ⟨a, d, ha, hd, hpersisted, hclient⟩)
  rcases hfacts.moves a' ha' with ⟨a, ha, hmove⟩ | ⟨-, hnone⟩
  · rcases hmove.drains hd with ⟨d₀, hd₀, hclient₀, -, hpersisted₀⟩ | ⟨-, hknown, -, hrevoked⟩
    · exact .inl (.inr ⟨a, d₀, ha, hd₀, hpersisted₀.trans hpersisted, hclient₀.trans hclient⟩)
    · subst hclient
      exact .inr ⟨h.known _ (registry_mem ha) _ hknown, hrevoked hpersisted⟩
  · rw [hnone] at hd
    exact absurd hd not_mem_nil

theorem BarrierInv.step (h : BarrierInv s) {e : GrantEvent}
    (hstep : s.step hash life spentKey e = some s') : BarrierInv s' := by
  have hfacts := step_facts h.known hstep
  have hsealedOf := fun c => h.sealed_of_step hfacts (c := c)
  constructor
  · intro st' hst'
    obtain ⟨st, hst, hedit⟩ := hfacts.contents st' hst'
    exact hedit.known hfacts.grows (h.known st hst)
  · intro c hsealed
    rcases hsealedOf c hsealed with hold | ⟨hc, -⟩
    · exact hfacts.grows.created (h.created c hold)
    · exact hfacts.grows.created hc
  · intro c hsealed st' hst' g' hg'
    rcases hsealedOf c hsealed with hold | ⟨-, hrevoked⟩
    · obtain ⟨st, hst, hedit⟩ := hfacts.contents st' hst'
      obtain ⟨-, rfl, hcell⟩ := hedit.cell hg'
      exact hcell.stays_revoked (h.created c hold) (h.revoked c hold st hst)
    · exact hrevoked st' hst' g' hg'
  · intro a' ha' d hd hpersisted i l' hl' hclient hregistered
    rcases hfacts.moves a' ha' with ⟨a, ha, hmove⟩ | ⟨-, hnone⟩
    · rcases hmove.drains hd with ⟨d₀, hd₀, hclient₀, hleases₀, hpersisted₀⟩ | ⟨hleases, -, hsame, -⟩
      · rcases hmove.lease hl' with ⟨l, hl, hcl, hreg, -⟩ | ⟨-, g, hg, hlive⟩
        · rw [← hleases₀]
          exact h.waited a ha d₀ hd₀ (hpersisted₀.trans hpersisted) i l hl
            ((hcl.symm.trans hclient).trans hclient₀.symm) (hreg hregistered)
        · refine absurd ?_ (h.not_sealed ⟨a, g, ha, hg, hlive⟩)
          exact .inr ⟨a, d₀, ha, hd₀, hpersisted₀.trans hpersisted, hclient₀.trans hclient.symm⟩
      · rw [hleases]
        exact mem_leasesOf (hsame ▸ hl') hclient hregistered
    · rw [hnone] at hd
      exact absurd hd not_mem_nil
  · intro a' ha' i l' hl' hdone
    rcases hfacts.moves a' ha' with ⟨a, ha, hmove⟩ | ⟨hnone, -⟩
    · rcases hmove.lease hl' with ⟨l, hl, -, hreg, hclosed⟩ | ⟨hopen, -⟩
      · rcases hclosed hdone with hold | hfree
        · have := h.closed a ha i l hl hold
          exact Bool.eq_false_iff.mpr fun hreg' => by simp [hreg hreg'] at this
        · exact hfree
      · simp [hdone] at hopen
    · rw [hnone] at hl'
      cases hl'
  · intro c hlog a' ha' i l' hl' hclient
    by_contra hregistered
    rw [Bool.not_eq_false] at hregistered
    rcases hfacts.moves a' ha' with ⟨a, ha, hmove⟩ | ⟨hnone, -⟩
    swap
    · rw [hnone] at hl'
      cases hl'
    have hcases := hfacts.logs.revoked_cases hlog
    rcases hmove.lease hl' with ⟨l, hl, hcl, hreg, -⟩ | ⟨-, g, hg, hlive⟩
    · have hfree : l.registered = false := by
        rcases hcases with hold | ⟨a₀, d, ha₀, hd, hpersisted, hclient₀, hdone⟩
        · exact h.released c hold a ha i l hl (hcl.symm.trans hclient)
        -- the revocation waited for this lease, and found it done
        cases ha.symm.trans ha₀
        have hwaited := h.waited a ha d hd hpersisted i l hl
          ((hcl.symm.trans hclient).trans hclient₀.symm) (hreg hregistered)
        obtain ⟨l₀, hl₀, hclosed⟩ := hdone i hwaited
        cases hl.symm.trans hl₀
        exact h.closed a ha i l hl hclosed
      simp [hreg hregistered] at hfree
    · refine h.not_sealed ⟨a, g, ha, hg, hlive⟩ ?_
      rcases hcases with hold | ⟨a₀, d, ha₀, hd, hpersisted, hclient₀, -⟩
      · exact .inl (hclient ▸ hold)
      · exact .inr ⟨a₀, d, ha₀, hd, hpersisted, hclient₀.trans hclient.symm⟩
  · intro c l₁ l₂ heq o ho hadmits
    rcases hfacts.logs.admits with hsame | ⟨o', heq', hlive⟩
    · exact h.order c l₁ l₂ (hsame.symm.trans heq) o ho hadmits
    cases l₁ with
    | nil => exact absurd ho not_mem_nil
    | cons o₁ l₁ =>
      obtain ⟨rfl, hlog⟩ := List.cons.inj (heq'.symm.trans heq)
      rcases mem_cons.mp ho with rfl | ho
      · refine h.not_sealed (hlive c hadmits) (.inl ?_)
        rw [hlog]
        exact mem_append_right _ mem_cons_self
      · exact h.order c l₁ l₂ hlog o ho hadmits

end Step

theorem barrierInv_of_run {generation : String} {es : List GrantEvent} {s : GrantState}
    (hrun : exec (GrantState.step hash life spentKey) (.blank generation) es = some s) :
    BarrierInv s := by
  refine exec_invariant BarrierInv (fun _ _ _ h hstep => h.step hstep) ?_ hrun
  have hsealed : ∀ c, ¬ Sealed (.blank generation) c := by
    rintro c (hlog | ⟨a, -, ha, -⟩)
    · exact absurd hlog not_mem_nil
    · cases ha
  refine ⟨fun st hst c hc => ?_, fun c hc => absurd hc (hsealed c),
    fun c hc => absurd hc (hsealed c), nofun, nofun,
    (fun c hlog => absurd (.inl hlog) (hsealed c)), fun c l₁ l₂ heq => ?_⟩
  · obtain rfl : st = ⟨generation, ∅⟩ := mem_singleton.mp hst
    exact absurd hc (AList.notMem_empty c)
  · simp [GrantState.blank] at heq

/-- **The revocation barrier**, over every interleaving of critical sections, crashes and restarts:
    once `Revoke` has returned `nil` for a client, no lease of the grant is registered, and no
    `Admit`, `Hold`, `Refresh` or `BeginAction` of it has succeeded since. -/
theorem revocation_barrier {generation : String} {es : List GrantEvent} {s : GrantState}
    (hrun : exec (GrantState.step hash life spentKey) (.blank generation) es = some s)
    {c : String} {after before : List Outcome} (hlog : s.log = after ++ .revoked c :: before) :
    (∀ a, s.process = some a → a.leasesOf c = []) ∧ ∀ o ∈ after, o.admits ≠ some c := by
  have hinv := barrierInv_of_run hrun
  refine ⟨fun a ha => ?_, hinv.order c after before hlog⟩
  have hmem : .revoked c ∈ s.log := by
    rw [hlog]
    exact mem_append_right _ mem_cons_self
  refine map_eq_nil_iff.mpr (filter_eq_nil_iff.mpr fun e he hopen => ?_)
  rw [Bool.and_eq_true, decide_eq_true_eq] at hopen
  have := hinv.released c hmem a ha e.1 e.2 (mem_entries_iff.mp he) hopen.1
  simp [hopen.2] at this

/-- A revocation finds a lease and a `Hold` between its sections. The hold fails, the lease is
    released, and `Revoke` returns; another client is admitted after it, and the process starts
    again. -/
theorem revocation_barrier_held_lease :
    ∃ s a, exec (GrantState.step sampleHash sampleLife id) (.blank "") (enrollAndRotate ++
        [.redeem ⟨"amxa_b", "q0", "d", ["read"], ⟨"all_sessions", []⟩, ⟨2, by decide⟩, .ok⟩,
          .refresh ⟨"r1", "amxa_c", "r2", ⟨3, by decide⟩, ["c", "d"], .ok⟩,
          .admits 0 "amxa_c" "read" 4, .grantLive 0 "read" false 4,
          .revoke "c" "signed out" ⟨5, by decide⟩ .ok, .hold 1 "c", .done 0, .closeDone 0,
          .drained 0, .admits 1 "amxa_b" "read" 6, .admits 2 "amxa_c" "read" 6, .crash,
          .load 0 ⟨"server", "g1"⟩ "b2" ⟨7, by decide⟩ .ok .ok]) = some s ∧
      s.process = some a ∧ a.leasesOf "c" = [] ∧
      s.log.takeWhile (fun o => o ≠ .revoked "c") = [.admitted "d"] ∧
      ∀ o ∈ s.log.takeWhile (fun o => o ≠ .revoked "c"), o.admits ≠ some "c" := by
  simp only [exists_and_left]
  refine reaches_imp (P := fun s => s.process.isSome ∧
    s.log = [.admitted "d"] ++ .revoked "c" :: s.log.drop 2) (by decide +kernel) ?_
  rintro s hs ⟨hsome, hlog⟩
  obtain ⟨a, ha⟩ := Option.isSome_iff_exists.mp hsome
  obtain ⟨hfree, horder⟩ := revocation_barrier hs hlog
  have hwhile : s.log.takeWhile (fun o => o ≠ .revoked "c") = [.admitted "d"] := by
    rw [hlog]
    simp
  exact ⟨a, ha, hfree a ha, hwhile, hwhile ▸ horder⟩

end AgentMultiplexer.Direct
