import AgentMultiplexer.Direct.KeyRuns

set_option autoImplicit false

/-! # What a step does to a record

Each operation of the authority changes at most the record it is called for: it admits it, ends it,
sets or clears its dispatch marker, or gives it a creation id. Everything else it leaves as it is, or
drops. What a step writes to the disk has the records of the memory after it, and a start settles the
creations that were never sent, in the content it has read. -/

namespace AgentMultiplexer.Direct

open GoMap List Option Transition StoreState

/-! ## Records of a content -/

variable {st : StoreState} {c : String}

namespace StoreState

/-- The record of a client's key. -/
def recordAt (st : StoreState) (clientID key : String) : Option IdemRecord :=
  (st.grants.lookup clientID).bind fun g => g.idem.lookup key

/-- The records are the same, whatever else differs. -/
def SameRecords (st st' : StoreState) : Prop := ∀ c k, st.recordAt c k = st'.recordAt c k

theorem recordAt_of_none (hg : st.grants.lookup c = none)
    (k : String) : st.recordAt c k = none := by
  rw [recordAt, hg, bind_none]

end StoreState

variable {g : GrantRecord}

theorem recordAt_of_lookup
    (hg : st.grants.lookup c = some g) (k : String) : st.recordAt c k = g.idem.lookup k := by
  rw [recordAt, hg, bind_some]

theorem recordAt_setGrant (p : Process) (c : String) (g : GrantRecord) (c' k : String) :
    (p.setGrant c g).registry.recordAt c' k =
      if c' = c then g.idem.lookup k else p.registry.recordAt c' k := by
  simp only [recordAt, Process.setGrant, lookup_insert_ite]
  split <;> rfl

/-- The record of a creation that was never sent, settled at a start. -/
def settleUndispatched (now : Int) (r : IdemRecord) : IdemRecord :=
  { r with state := .done, ok := false, code := codeUnavailable, error := undispatchedError
           endedAt := now }

theorem recordAt_normalizeUndispatched (now : Int) (st : StoreState) (c k : String) :
    (normalizeUndispatched now st).recordAt c k =
      (st.recordAt c k).map fun r => if undispatched r then settleUndispatched now r else r := by
  simp only [recordAt, normalizeUndispatched, lookup_mapVal]
  cases st.grants.lookup c with
  | none => rfl
  | some g => exact lookup_mapVal

theorem recordAt_revokeAll (reason : String) (now : Int) (st : StoreState) (c k : String) :
    (revokeAll reason now st).recordAt c k = st.recordAt c k := by
  simp only [recordAt, revokeAll, lookup_mapVal]
  cases st.grants.lookup c with
  | none => rfl
  | some g =>
    simp only [map_some, bind_some, markRevoked]
    split <;> rfl

variable {r : IdemRecord}

variable {spentKey : String → String} {k : String}

theorem lookup_compactExpired {now : Int} {order : List String}
    (h : (compactExpired spentKey now order g).idem.lookup k = some r) :
    g.idem.lookup k = some r := by
  induction order generalizing g with
  | nil => exact h
  | cons key order ih =>
    have hkey := ih h
    unfold compactRecord at hkey
    split at hkey
    · exact hkey
    split at hkey
    · exact hkey
    split at hkey
    · exact hkey
    · exact lookup_of_erase hkey

/-! ## Moves -/

/-- What `endAction` makes of a record. -/
def Ending.record (ending : Ending) (now : Int) (r : IdemRecord) : IdemRecord :=
  let r := ending.set r
  if r.creationID ≠ "" then { r with endedAt := now } else r

/-- The call is let proceed. -/
def Proceeds (spentKey : String → String) (p : Process) (call : BeginCall) : Prop :=
  call.peek = false ∧ ∀ disk, (beginAction spentKey p disk call).2.2 = .ok .proceed

/-- What a step of the authority `p` does to the record of a client's key. A key is admitted only if
    it is not held already, and its call proceeds unless the commit is uncertain. -/
inductive RecordMove (spentKey : String → String) (p : Process) (e : DirectEvent)
    (clientID key : String) :
    Option IdemRecord → Option IdemRecord → Prop
  | same (o : Option IdemRecord) : RecordMove spentKey p e clientID key o o
  | dropped (o : Option IdemRecord) : RecordMove spentKey p e clientID key o none
  | admitted (o : Option IdemRecord) {call : BeginCall} (he : e = .begin call)
      (hclient : call.clientID = clientID) (hkey : call.key = key)
      (hnew : ∀ h B, Good Set.univ h p.registry →
        ¬ Held spentKey Set.univ h p.registry clientID key B)
      (hsure : call.commit ≠ .ambiguous → Proceeds spentKey p call) :
      RecordMove spentKey p e clientID key o (some (admission p.boot call))
  | ended {r : IdemRecord} {ending : Ending} {now : Int} {commit : Commit}
      (he : e = .finish clientID key ending now commit) (hcommit : commit ≠ .notCommitted) :
      RecordMove spentKey p e clientID key (some r) (some (ending.record now r))
  | marked {r : IdemRecord} {leaseEnded : Bool} {now : Int} {commit : Commit}
      (he : e = .markDispatched clientID key leaseEnded now commit)
      (hcommit : commit ≠ .notCommitted) :
      RecordMove spentKey p e clientID key (some r) (some { r with dispatchedAt := now })
  | unmarked {r : IdemRecord} {leaseEnded : Bool} {now : Int}
      (he : e = .markDispatched clientID key leaseEnded now .notCommitted) :
      RecordMove spentKey p e clientID key (some r) (some { r with dispatchedAt := 0 })
  | named {r : IdemRecord} {creationID verb : String} {commit : Commit}
      (he : e = .ensureCreationID clientID key creationID verb commit) (hr : r.creationID = "")
      (hcommit : commit ≠ .notCommitted) :
      RecordMove spentKey p e clientID key (some r)
        (some { r with creationID := creationID, verb := verb })
  | unnamed {r : IdemRecord} {creationID verb : String}
      (he : e = .ensureCreationID clientID key creationID verb .notCommitted)
      (hr : r.creationID = "") :
      RecordMove spentKey p e clientID key (some r) (some { r with creationID := "", verb := "" })

/-- An operation that gives nothing new leaves the record or drops it. -/
theorem RecordMove.of_le {p : Process} {e : DirectEvent}
    {o o' : Option IdemRecord} (h : ∀ r, o' = some r → o = some r) :
    RecordMove spentKey p e c k o o' := by
  cases o' with
  | none => exact .dropped o
  | some r => exact h r rfl ▸ .same _

/-- What an operation leaves in memory and on the disk, as far as records go. -/
structure Moves (spentKey : String → String) (e : DirectEvent) (p : Process)
    (disk : List StoreState) (next : Process × List StoreState) : Prop where
  boot : next.1.boot = p.boot
  record : ∀ c k, RecordMove spentKey p e c k (p.registry.recordAt c k) (next.1.registry.recordAt c k)
  disk : ∀ st ∈ next.2, st ∈ disk ∨ st.SameRecords next.1.registry

section Moves

variable {spentKey : String → String} {e : DirectEvent} {p q : Process} {disk : List StoreState}
  {clientID key : String}

theorem Moves.kept
    (hrec : ∀ c k, RecordMove spentKey p e c k (p.registry.recordAt c k) (q.registry.recordAt c k))
    (hboot : q.boot = p.boot) : Moves spentKey e p disk (q, disk) :=
  ⟨hboot, hrec, fun _ hst => .inl hst⟩

theorem Moves.refl : Moves spentKey e p disk (p, disk) := .kept (fun _ _ => .same _) rfl

theorem commitKept_moves
    (hrec : ∀ c k, RecordMove spentKey p e c k (p.registry.recordAt c k) (q.registry.recordAt c k))
    (hboot : q.boot = p.boot) (commit : Commit) : Moves spentKey e p disk
    (commitKept q disk commit) := by
  cases commit with
  | ok => exact ⟨hboot, hrec, fun st hst => .inr fun _ _ => mem_singleton.mp hst ▸ rfl⟩
  | notCommitted => exact .kept hrec hboot
  | ambiguous =>
    exact ⟨hboot, hrec, forall_mem_cons.mpr ⟨.inr fun _ _ => rfl, fun _ => .inl⟩⟩

/-! ## One record -/

section Update

variable {change undo : IdemRecord → IdemRecord} {commit : Commit}

theorem updateRecord_of_none (h : p.registry.recordAt clientID key = none) :
    updateRecord p disk clientID key change undo commit = (p, disk) := by
  unfold updateRecord
  split
  · rfl
  next g hg =>
  rw [recordAt_of_lookup hg] at h
  rw [h]

theorem updateRecord_of_some (disk : List StoreState) (change undo : IdemRecord → IdemRecord)
    (commit : Commit) {r : IdemRecord} (h : p.registry.recordAt clientID key = some r) :
    ∃ g, p.registry.grants.lookup clientID = some g ∧
      updateRecord p disk clientID key change undo commit =
        match commit with
        | .notCommitted =>
          (p.setGrant clientID { g with idem := g.idem.insert key (undo r) }, disk)
        | c => commitKept (p.setGrant clientID { g with idem := g.idem.insert key (change r) })
            disk c := by
  obtain ⟨g, hg, hr⟩ := bind_eq_some_iff.mp h
  refine ⟨g, hg, ?_⟩
  rw [updateRecord, hg]
  cases commit <;> simp only [hr]

theorem recordAt_replace (hg : p.registry.grants.lookup clientID = some g)
    (r : IdemRecord) (c k : String) :
    (p.setGrant clientID { g with idem := g.idem.insert key r }).registry.recordAt c k =
      if c = clientID ∧ k = key then some r else p.registry.recordAt c k := by
  rw [recordAt_setGrant]
  split
  · next hc =>
    subst hc
    rw [lookup_insert_ite, recordAt_of_lookup hg]
    simp only [true_and]
  · next hc => rw [if_neg fun h => hc h.1]

/-- A move of the one record is a move of all. -/
theorem replace_moves {r r' : IdemRecord} (hreg : q.registry = p.registry)
    (hg : q.registry.grants.lookup clientID = some g)
    (hr : q.registry.recordAt clientID key = some r)
    (hmove : RecordMove spentKey p e clientID key (some r) (some r')) (c k : String) :
    RecordMove spentKey p e c k (p.registry.recordAt c k)
      ((q.setGrant clientID { g with idem := g.idem.insert key r' }).registry.recordAt c k) := by
  rw [recordAt_replace hg, ← hreg]
  split
  · next h =>
    obtain ⟨rfl, rfl⟩ := h
    rw [hr]
    exact hmove
  · exact .same _

/-- The update is made on `q`, which differs from `p` in the running set at most. -/
theorem updateRecord_moves (hreg : q.registry = p.registry) (hboot : q.boot = p.boot)
    (hchange : ∀ r, q.registry.recordAt clientID key = some r → commit ≠ .notCommitted →
      RecordMove spentKey p e clientID key (some r) (some (change r)))
    (hundo : ∀ r, q.registry.recordAt clientID key = some r → commit = .notCommitted →
      RecordMove spentKey p e clientID key (some r) (some (undo r))) :
    Moves spentKey e p disk (updateRecord q disk clientID key change undo commit) := by
  cases hr : q.registry.recordAt clientID key with
  | none => exact updateRecord_of_none hr ▸ .kept (fun _ _ => hreg ▸ .same _) hboot
  | some r =>
    obtain ⟨g, hg, hupdate⟩ := updateRecord_of_some disk change undo commit hr
    rw [hupdate]
    cases commit with
    | notCommitted => exact .kept (replace_moves hreg hg hr (hundo r hr rfl)) hboot
    | ok | ambiguous =>
      exact commitKept_moves (replace_moves hreg hg hr (hchange r hr nofun)) hboot _

theorem updateRecord_running (disk : List StoreState) (change undo : IdemRecord → IdemRecord)
    (commit : Commit) :
    (updateRecord p disk clientID key change undo commit).1.running = p.running := by
  cases hr : p.registry.recordAt clientID key with
  | none => rw [updateRecord_of_none hr]
  | some r =>
    obtain ⟨g, -, hupdate⟩ := updateRecord_of_some disk change undo commit hr
    rw [hupdate]
    cases commit <;> rfl

theorem updateRecord_ok {r : IdemRecord} (disk : List StoreState)
    (change undo : IdemRecord → IdemRecord) (hr : p.registry.recordAt clientID key = some r) :
    (updateRecord p disk clientID key change undo .ok).2 =
      [(updateRecord p disk clientID key change undo .ok).1.registry] := by
  obtain ⟨g, -, hupdate⟩ := updateRecord_of_some disk change undo .ok hr
  rw [hupdate]
  rfl

end Update

/-! ## The operations on a record -/

/-- **`AbortAction`** drops the record, or leaves it. -/
theorem abortAction_moves (commit : Commit) :
    Moves spentKey e p disk (abortAction p disk clientID key commit) := by
  fun_cases abortAction with
  | case1 | case2 | case3 => exact .kept (fun _ _ => .same _) rfl
  | case4 _ g hg r hr =>
    refine .kept (fun c k => ?_) rfl
    rw [recordAt_setGrant]
    refine .of_le fun r' h => ?_
    split at h
    · next hc =>
      subst hc
      rw [recordAt_of_lookup hg, ← h, lookup_insert_ite, lookup_erase_ite]
      split
      · next hk => rw [hk, hr]
      · rfl
    · exact h
  | case5 _ g hg =>
    refine commitKept_moves (fun c k => ?_) ?_ _
    swap
    · rfl
    rw [recordAt_setGrant]
    refine .of_le fun r' h => ?_
    split at h
    · next hc =>
      subst hc
      rw [recordAt_of_lookup hg, lookup_of_erase h]
    · exact h

theorem markDispatched_moves (leaseEnded : Bool) (now : Int) (commit : Commit) :
    Moves spentKey (.markDispatched clientID key leaseEnded now commit) p disk
      (markDispatched p disk clientID key leaseEnded now commit) := by
  fun_cases markDispatched with
  | case1 | case2 | case3 => exact .refl
  | case4 =>
    exact updateRecord_moves rfl rfl (fun r _ hcommit => .marked rfl hcommit)
      fun r _ hcommit => by subst hcommit; exact .unmarked rfl

/-- **`EnsureCreationID`** names a record that has no id. -/
theorem ensureCreationID_moves (creationID verb : String) (commit : Commit) :
    Moves spentKey (.ensureCreationID clientID key creationID verb commit) p disk
      (ensureCreationID p disk clientID key creationID verb commit) := by
  fun_cases ensureCreationID with
  | case1 | case2 | case3 => exact .refl
  | case4 g hg r hr hopen =>
    have hnone : ∀ r', p.registry.recordAt clientID key = some r' → r'.creationID = "" := by
      intro r' hr'
      rw [recordAt_of_lookup hg, hr] at hr'
      cases hr'
      by_contra hne
      exact hopen (.inr (.inl hne))
    exact updateRecord_moves rfl rfl (fun r hr hcommit => .named rfl (hnone r hr) hcommit)
      fun r hr hcommit => by subst hcommit; exact .unnamed rfl (hnone r hr)

variable {call : BeginCall}

/-- The end of `BeginAction`, after the compaction of the grant has made `q` of `p`. -/
theorem admit_moves (hboot : q.boot = p.boot) (hnew : ∀ h B, Good .univ h p.registry →
      ¬ Held spentKey .univ h p.registry call.clientID call.key B)
    (hle : ∀ c k r, q.registry.recordAt c k = some r → p.registry.recordAt c k = some r)
    (hg : ∀ k r, g.idem.lookup k = some r → p.registry.recordAt call.clientID k = some r)
    (hsure : call.commit = .ok → Proceeds spentKey p call) :
    Moves spentKey (.begin call) p disk ((admits q disk g call).1, (admits q disk g call).2.1) := by
  have hrec : (call.commit ≠ .ambiguous → call.commit = .ok) → ∀ c k,
      RecordMove spentKey p (.begin call) c k (p.registry.recordAt c k) ((q.setGrant call.clientID
        { g with idem := g.idem.insert call.key (admission q.boot call) }).registry.recordAt
          c k) := by
    intro hok c k
    rw [recordAt_setGrant, hboot]
    split
    · next hc =>
      subst hc
      rw [lookup_insert_ite]
      split
      · next hk => exact hk ▸ .admitted _ rfl rfl rfl hnew (hsure ∘ hok)
      · exact .of_le fun r hr => hg k r hr
    · exact .of_le fun r hr => hle c k r hr
  unfold admits
  split
  · next hok =>
    exact ⟨hboot, hrec fun _ => hok, fun st hst => .inr fun _ _ => mem_singleton.mp hst ▸ rfl⟩
  · refine .kept (fun c k => ?_) hboot
    rw [recordAt_setGrant]
    refine .of_le fun r h => ?_
    split at h
    · next hc =>
      subst hc
      exact hg k r (lookup_of_erase_insert h)
    · exact hle c k r h
  · next hcommit => exact commitKept_moves (hrec fun h => absurd hcommit h) hboot .ambiguous

/-- A key for which nothing is found is not held. -/
theorem not_held_of_outcome {h : History} {B : String → Prop}
    (hg : p.registry.grants.lookup call.clientID = some g) (hgood : Good .univ h p.registry)
    (hnone : recordedOutcome spentKey p.running call.clientID
      (compactExpired spentKey call.now call.order g) call.key call.bodyHash call.now = none) :
    ¬ Held spentKey .univ h p.registry call.clientID call.key B := by
  rintro (⟨g', hg', hrec⟩ | ⟨hnot, -⟩)
  · cases hg.symm.trans hg'
    have hcompact : GrantKeeps spentKey .univ (fun _ => True) g
        (compactExpired spentKey call.now call.order g) := compactExpired_keeps _ _ g
    obtain ⟨outcome, hsome, -⟩ :=
      (hcompact.recorded call.key B trivial (Set.mem_univ _) (hgood.keys _ g hg) hrec).outcome
        p.running call.clientID call.bodyHash call.now
    cases hnone.symm.trans hsome
  · cases hg.symm.trans hnot

theorem beginAction_moves (call : BeginCall) : Moves spentKey (.begin call) p disk
      ((beginAction spentKey p disk call).1, (beginAction spentKey p disk call).2.1) := by
  have hsure : ∀ {g}, call.leaseEnded ≠ true → p.registry.grants.lookup call.clientID = some g →
      ¬ g.revokedAt ≠ 0 → recordedOutcome spentKey p.running call.clientID
        (compactExpired spentKey call.now call.order g) call.key call.bodyHash call.now = none →
      call.peek ≠ true → p.degraded ≠ true →
      ¬ maxIdemPerGrant ≤ (compactExpired spentKey call.now call.order g).idem.len →
      call.commit = .ok → Proceeds spentKey p call := by
    intro g hlease hg hlive hnone hpeek hdegraded hroom hok
    refine ⟨by simpa using hpeek, fun disk => ?_⟩
    simp only [beginAction, if_neg hlease, hg, if_neg hlive, hnone, if_neg hpeek, Process.setGrant,
      if_neg hdegraded, if_neg hroom, admits, hok]
  unfold beginAction
  split
  · exact .refl
  next hlease =>
  split
  · exact .refl
  next g hg =>
  split
  · exact .refl
  next hlive =>
  dsimp only
  have hold : ∀ k r, (compactExpired spentKey call.now call.order g).idem.lookup k = some r →
      p.registry.recordAt call.clientID k = some r := fun k r h =>
    (recordAt_of_lookup hg k).trans (lookup_compactExpired h)
  have hle : ∀ c k r, (p.setGrant call.clientID
      (compactExpired spentKey call.now call.order g)).registry.recordAt c k = some r →
      p.registry.recordAt c k = some r := by
    intro c k r h
    rw [recordAt_setGrant] at h
    split at h
    · next hc => exact hc ▸ hold k r h
    · exact h
  have hcompact : ∀ c k, RecordMove spentKey p (.begin call) c k (p.registry.recordAt c k)
      ((p.setGrant call.clientID
        (compactExpired spentKey call.now call.order g)).registry.recordAt c k) :=
    fun c k => .of_le (hle c k)
  split
  · exact .kept hcompact rfl
  next hnone =>
  split
  · exact .kept hcompact rfl
  next hpeek =>
  split
  · exact .kept hcompact rfl
  next hdegraded =>
  split
  · exact .kept hcompact rfl
  next hroom =>
  exact admit_moves rfl (fun h B hgood hheld => not_held_of_outcome hg hgood hnone hheld) hle hold
    (hsure hlease hg hlive hnone hpeek hdegraded hroom)

/-! ## The running actions -/

theorem abortAction_running (disk : List StoreState) (commit : Commit) :
    (abortAction p disk clientID key commit).1.running =
      p.running.filter fun k => k ≠ runKey clientID key := by
  fun_cases abortAction with
  | case5 => cases commit <;> rfl
  | _ => rfl

theorem beginAction_running (spentKey : String → String) (disk : List StoreState)
    (call : BeginCall) :
    ((beginAction spentKey p disk call).1.running = runKey call.clientID call.key :: p.running ∧
      (beginAction spentKey p disk call).2.2 = .ok .proceed ∧ call.peek = false) ∨
    ((beginAction spentKey p disk call).1.running = p.running ∧
      ((beginAction spentKey p disk call).2.2 = .ok .proceed → call.peek = true)) := by
  fun_cases beginAction spentKey p disk call with
  | case4 _ _ _ _ _ _ outcome houtcome =>
    refine .inr ⟨rfl, fun h => ?_⟩
    cases h
    exact (recordedOutcome_ne_proceed _ _ _ _ _ _ houtcome).elim
  | case5 _ _ _ _ _ _ _ hpeek => exact .inr ⟨rfl, fun _ => hpeek⟩
  | case8 _ _ _ _ _ _ _ hpeek =>
    unfold admits
    cases call.commit with
    | ok => exact .inl ⟨rfl, rfl, by simpa using hpeek⟩
    | notCommitted | ambiguous => exact .inr ⟨rfl, by simp⟩
  | _ => exact .inr ⟨rfl, by simp⟩

end Moves

/-! ## Steps -/

/-- The operations that start and end no action. -/
def DirectEvent.Still : DirectEvent → Prop
  | .begin _ | .finish .. | .abort .. => False
  | _ => True

namespace DirectState

variable {spentKey : String → String} {s t : DirectState} {e : DirectEvent} {p : Process}

/-- **`Redeem`**: a new grant has no records. -/
theorem redeem_moves (clientID : String) (now : Int) (commit : Commit) :
    ∃ q, ((s.create clientID).redeem p clientID now commit).process = some q ∧
      Moves spentKey e p s.disk (q, ((s.create clientID).redeem p clientID now commit).disk) := by
  have hempty : ∀ g : GrantRecord, g.idem = ∅ → ∀ c k, (p.setGrant clientID g).registry.recordAt
      c k = if c = clientID then none else p.registry.recordAt c k := by
    intro g hg c k
    rw [recordAt_setGrant, hg, AList.lookup_empty]
  have hmove : ∀ g : GrantRecord, g.idem = ∅ → ∀ c k, RecordMove spentKey p e c k
      (p.registry.recordAt c k) ((p.setGrant clientID g).registry.recordAt c k) := by
    intro g hg c k
    rw [hempty g hg]
    split
    · exact .dropped _
    · exact .same _
  cases commit with
  | ok => exact ⟨_, rfl, commitKept_moves (hmove newGrant rfl) rfl .ok⟩
  | notCommitted =>
    refine ⟨_, rfl, .kept (fun c k => .of_le fun r h => ?_) rfl⟩
    obtain ⟨g, hg, hr⟩ := bind_eq_some_iff.mp h
    rw [recordAt_of_lookup (lookup_of_erase_insert hg), hr]
  | ambiguous =>
    have hidem : (markRevoked "enrollment commit uncertain" now newGrant).idem = ∅ := rfl
    refine ⟨_, rfl, rfl, hmove _ hidem, forall_mem_cons.mpr ⟨.inr fun c k => ?_, fun _ => .inl⟩⟩
    exact (hempty newGrant rfl c k).trans (hempty _ hidem c k).symm

theorem step_moves (hp : s.process = some p) (hstep : step spentKey s e = some t)
    (he : e ≠ .crash) : ∃ q, t.process = some q ∧ Moves spentKey e p s.disk (q, t.disk) := by
  have hmoved : ∀ {s' : DirectState} {next : Process × List StoreState},
      Moves spentKey e p s.disk next → s'.moved next = t →
      ∃ q, t.process = some q ∧ Moves spentKey e p s.disk (q, t.disk) := by
    rintro s' next hmoves rfl
    exact ⟨next.1, rfl, hmoves⟩
  cases e with simp only [step, hp] at hstep
  | begin call =>
    exact hmoved (beginAction_moves call) (some.inj hstep)
  | finish clientID key ending now commit =>
    refine hmoved ?_ (some.inj hstep)
    exact updateRecord_moves rfl rfl (fun r _ hcommit => .ended rfl hcommit) fun r _ _ => .same _
  | abort clientID key commit =>
    exact hmoved (abortAction_moves commit) (some.inj hstep)
  | markDispatched clientID key leaseEnded now commit =>
    exact hmoved (markDispatched_moves leaseEnded now commit) (some.inj hstep)
  | ensureCreationID clientID key creationID verb commit =>
    exact hmoved (ensureCreationID_moves creationID verb commit) (some.inj hstep)
  | redeem clientID now commit =>
    split_ifs at hstep
    cases hstep
    exact redeem_moves clientID now commit
  | revoke clientID reason now commit =>
    split at hstep
    · cases hstep
      exact ⟨p, hp, .refl⟩
    next g hg =>
    refine hmoved (commitKept_moves (fun c k => ?_) ?_ commit) (some.inj hstep)
    · rw [recordAt_setGrant]
      refine .of_le fun r h => ?_
      split at h
      · next hc =>
        subst hc
        rw [recordAt_of_lookup hg, ← h, markRevoked]
        split <;> rfl
      · exact h
    · rfl
  | resetIdentity now commit =>
    have hrevoked : ∀ c k, RecordMove spentKey p (.resetIdentity now commit) c k
        (p.registry.recordAt c k)
        ((revokeAll "identity reset" now p.registry).recordAt c k) := fun c k =>
      recordAt_revokeAll "identity reset" now p.registry c k ▸ .same _
    have hmoves : Moves spentKey (.resetIdentity now commit) p s.disk
        (commitKept { p with registry := revokeAll "identity reset" now p.registry } s.disk
          commit) :=
      commitKept_moves (q := { p with registry := _ }) hrevoked rfl commit
    cases hstep
    exact ⟨_, rfl, hmoves.boot, hmoves.record, hmoves.disk⟩
  | prune now leased =>
    refine hmoved (.kept (fun c k => ?_) ?_) (some.inj hstep)
    · refine .of_le fun r h => ?_
      obtain ⟨g, hg, hr⟩ := bind_eq_some_iff.mp h
      rw [recordAt_of_lookup (lookup_filter_eq_some.mp hg).1, hr]
    · rfl
  | commit commit =>
    exact hmoved (commitKept_moves (fun _ _ => .same _) rfl commit) (some.inj hstep)
  | crash => exact absurd rfl he
  | load => cases hstep

variable {q : Process}

theorem step_running (hp : s.process = some p) (hstep : step spentKey s e = some t)
    (hq : t.process = some q) (hstill : e.Still) : q.running = p.running := by
  have hkept : ∀ (p' : Process) disk (commit : Commit),
      (commitKept p' disk commit).1.running = p'.running := by
    intro p' disk commit
    cases commit <;> rfl
  cases e with simp only [step, hp] at hstep
  | begin | finish | abort => exact hstill.elim
  | markDispatched clientID key leaseEnded now commit =>
    cases hstep
    cases hq
    fun_cases markDispatched with
    | case1 | case2 | case3 => rfl
    | case4 => exact updateRecord_running ..
  | ensureCreationID clientID key creationID verb commit =>
    cases hstep
    cases hq
    fun_cases ensureCreationID with
    | case1 | case2 | case3 => rfl
    | case4 => exact updateRecord_running ..
  | redeem clientID now commit =>
    split_ifs at hstep
    cases hstep
    cases commit <;> (cases hq; rfl)
  | revoke clientID reason now commit =>
    split at hstep
    · cases hstep
      rw [mem_unique hp hq]
    · cases hstep
      cases hq
      exact hkept ..
  | resetIdentity now commit =>
    cases hstep
    cases hq
    exact hkept { p with registry := revokeAll "identity reset" now p.registry } ..
  | prune now leased =>
    cases hstep
    cases hq
    rfl
  | commit commit =>
    cases hstep
    cases hq
    exact hkept ..
  | crash =>
    cases hstep
    cases hq
  | load => cases hstep

/-! ## Starts -/

/-- What a start makes of the content `st` it has read. -/
inductive Loads (st : StoreState) (now : Int) (settle : Commit) (s t : DirectState) : Prop
  /-- Nothing was to be settled. -/
  | read (hcontents : ∀ st' ∈ t.contents, st' ∈ s.disk ∨ st'.SameRecords st)
  /-- The creations that were never sent are settled, durably. -/
  | settled (hsettle : settle = .ok)
      (hcontents : ∀ st' ∈ t.contents, st'.SameRecords (normalizeUndispatched now st))
  /-- The save failed and there is no authority. -/
  | failed (hsettle : settle ≠ .ok) (hprocess : t.process = none)
      (hcontents : ∀ st' ∈ t.contents,
        st' ∈ s.disk ∨ (settle = .ambiguous ∧ st' = normalizeUndispatched now st))

theorem openLoaded_contents (s : DirectState) (st : StoreState) (disk : List StoreState)
    (boot : String) (now : Int) (identityChanged : Bool) (revoke : Commit) :
    (∀ st' ∈ (s.openLoaded st disk boot now identityChanged revoke).contents,
      st' ∈ disk ∨ st'.SameRecords st) ∧
    ∀ q, (s.openLoaded st disk boot now identityChanged revoke).process = some q →
      q.running = [] := by
  unfold openLoaded
  have hsame : (revokeAll "identity changed" now st).SameRecords st := recordAt_revokeAll _ now st
  cases identityChanged with
  | false =>
    refine ⟨fun st' hst' => ?_, fun q hq => some.inj hq ▸ rfl⟩
    rcases mem_contents.mp hst' with ⟨q, hq, rfl⟩ | hst'
    · exact .inr fun _ _ => some.inj hq ▸ rfl
    · exact .inl hst'
  | true =>
    refine ⟨fun st' hst' => ?_, fun q hq => ?_⟩
    · rcases mem_contents.mp hst' with ⟨q, hq, rfl⟩ | hst'
      · cases revoke with
        | ok => exact .inr (some.inj hq ▸ hsame)
        | notCommitted => cases hq
        | ambiguous => cases hq
      · rcases mem_saved hst' with ⟨-, rfl⟩ | hst'
        · exact .inr hsame
        · exact .inl hst'
    · cases revoke with
      | ok => exact some.inj hq ▸ rfl
      | notCommitted => cases hq
      | ambiguous => cases hq

/-- **A start.** Nothing is running after it. -/
theorem load_loads (hp : s.process = none) (hstep : step spentKey s e = some t) :
    (∃ st ∈ s.disk, ∃ content boot now settle identityChanged revoke,
      e = .load content boot now settle identityChanged revoke ∧ Loads st now settle s t) ∧
    ∀ q, t.process = some q → q.running = [] := by
  cases e with
  | load content boot now settle identityChanged revoke =>
    simp only [step, hp, map_eq_some_iff] at hstep
    obtain ⟨st, hst, rfl⟩ := hstep
    suffices h : Loads st now settle s (s.load st boot now settle identityChanged revoke) ∧
        ∀ q, (s.load st boot now settle identityChanged revoke).process = some q →
          q.running = [] from
      ⟨⟨st, mem_of_getElem? hst, _, _, _, _, _, _, rfl, h.1⟩, h.2⟩
    unfold load
    split
    · split
      · next hok =>
        obtain ⟨hcontents, hrunning⟩ := openLoaded_contents s
          (normalizeUndispatched now st) [normalizeUndispatched now st] boot now identityChanged
          revoke
        refine ⟨.settled hok fun st' hst' => ?_, hrunning⟩
        rcases hcontents st' hst' with h | h
        · exact fun _ _ => mem_singleton.mp h ▸ rfl
        · exact h
      · next hok =>
        refine ⟨.failed hok hp fun st' hst' => ?_, fun q hq => ?_⟩
        · rcases mem_contents.mp hst' with ⟨q, hq, -⟩ | hst'
          · cases hp.symm.trans hq
          · rcases mem_saved hst' with ⟨hsettle, rfl⟩ | hst'
            · cases settle with
              | ambiguous => exact .inr ⟨rfl, rfl⟩
              | _ => contradiction
            · exact .inl hst'
        · cases hp.symm.trans hq
    · obtain ⟨hcontents, hrunning⟩ := openLoaded_contents s st s.disk boot now
        identityChanged revoke
      exact ⟨.read hcontents, hrunning⟩
  | _ => simp only [step, hp, reduceCtorEq] at hstep

/-! ## Where a record comes from -/

/-- What a step of the running authority leaves has the records of its memory, or was there
    before. -/
theorem mem_contents_of_moves (hq : t.process = some q)
    (hmoves : Moves spentKey e p s.disk (q, t.disk)) (hst : st ∈ t.contents) :
    st ∈ s.contents ∨ st.SameRecords q.registry := by
  rcases mem_contents.mp hst with ⟨q', hq', rfl⟩ | hst
  · exact .inr fun _ _ => mem_unique hq hq' ▸ rfl
  · exact (hmoves.disk st hst).imp (fun h => mem_contents.mpr (.inr h)) id

theorem crash_eq (hp : s.process = some p) (hstep : step spentKey s .crash = some t) :
    t = { s with process := none } := by
  simp only [step, hp] at hstep
  exact (some.inj hstep).symm

/-- What happened to a record that the authority still has in memory. -/
theorem memory_move {r' : IdemRecord} (hp : s.process = some p)
    (hstep : step spentKey s e = some t) (hq : t.process = some q)
    (hr' : q.registry.recordAt c k = some r') :
    RecordMove spentKey p e c k (p.registry.recordAt c k) (some r') := by
  have hcrash : e ≠ .crash := by
    rintro rfl
    rw [crash_eq hp hstep] at hq
    cases hq
  obtain ⟨q', hq', hmoves⟩ := step_moves hp hstep hcrash
  cases hq.symm.trans hq'
  exact hr' ▸ hmoves.record c k

/-- Where a record of a content after the step comes from. -/
inductive Origin (spentKey : String → String) (s : DirectState) (e : DirectEvent)
    (clientID key : String) (r' : IdemRecord) : Prop
  | old {st : StoreState} (hst : st ∈ s.contents) (hr : st.recordAt clientID key = some r')
  | moved {p : Process} (hp : s.process = some p)
      (hmove : RecordMove spentKey p e clientID key (p.registry.recordAt clientID key) (some r'))
  | settled {st : StoreState} {r : IdemRecord} {now : Int} (hp : s.process = none)
      (hst : st ∈ s.contents) (hr : st.recordAt clientID key = some r)
      (hun : undispatched r = true) (hr' : r' = settleUndispatched now r)

/-- **Every record has an origin.** -/
theorem step_origin {st' : StoreState} {r' : IdemRecord}
    (hstep : step spentKey s e = some t) (hst' : st' ∈ t.contents)
    (hr' : st'.recordAt c k = some r') : Origin spentKey s e c k r' := by
  cases hp : s.process with
  | none =>
    obtain ⟨⟨st, hst, _, _, now, settle, _, _, -, hloads⟩, -⟩ := load_loads hp hstep
    have hold : ∀ {st₀}, st₀ ∈ s.disk → st₀ ∈ s.contents := fun h => mem_contents.mpr (.inr h)
    have hnormal : (normalizeUndispatched now st).recordAt c k = some r' →
        Origin spentKey s e c k r' := by
      intro h
      rw [recordAt_normalizeUndispatched] at h
      obtain ⟨r, hr, hif⟩ := map_eq_some_iff.mp h
      split at hif
      · next hun => exact .settled hp (hold hst) hr hun hif.symm
      · exact .old (hold hst) (hif ▸ hr)
    cases hloads with
    | read hcontents =>
      rcases hcontents st' hst' with h | h
      · exact .old (hold h) hr'
      · exact .old (hold hst) (h c k ▸ hr')
    | settled hsettle hcontents => exact hnormal (hcontents st' hst' c k ▸ hr')
    | failed hsettle hprocess hcontents =>
      rcases hcontents st' hst' with h | ⟨-, rfl⟩
      · exact .old (hold h) hr'
      · exact hnormal hr'
  | some p =>
    by_cases he : e = .crash
    · subst he
      obtain rfl := crash_eq hp hstep
      refine .old (mem_contents.mpr (.inr ?_)) hr'
      rcases mem_contents.mp hst' with ⟨q, hq, -⟩ | h
      · cases hq
      · exact h
    · obtain ⟨q, hq, hmoves⟩ := step_moves hp hstep he
      rcases mem_contents_of_moves hq hmoves hst' with h | h
      · exact .old h hr'
      have hmove := hmoves.record c k
      rw [← h c k, hr'] at hmove
      exact .moved hp hmove

theorem step_created (hstep : step spentKey s e = some t)
    (hc : c ∈ t.history.created) :
    c ∈ s.history.created ∨ ∃ now commit, e = .redeem c now commit := by
  revert hstep
  fun_cases step spentKey s e with
  | case1 content boot now settle identityChanged revoke =>
    intro hstep
    obtain ⟨st, -, rfl⟩ := map_eq_some_iff.mp hstep
    have hopen : ∀ st disk, (s.openLoaded st disk boot now identityChanged
        revoke).history.created = s.history.created := by
      intro st disk
      unfold openLoaded
      cases identityChanged <;> rfl
    unfold load at hc
    split at hc
    · split at hc
      · exact .inl (hopen .. ▸ hc)
      · exact .inl hc
    · exact .inl (hopen .. ▸ hc)
  | case9 p clientID now commit =>
    rintro ⟨⟩
    have hcons : c ∈ clientID :: s.history.created := by
      cases commit <;> exact hc
    rcases mem_cons.mp hcons with rfl | hc
    · exact .inr ⟨now, commit, rfl⟩
    · exact .inl hc
  | case2 | case8 | case16 => rintro ⟨⟩
  | _ =>
    rintro ⟨⟩
    exact .inl hc

end DirectState

end AgentMultiplexer.Direct
