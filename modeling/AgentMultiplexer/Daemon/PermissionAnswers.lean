import AgentMultiplexer.Daemon.PermissionGate

set_option autoImplicit false

/-! # Which runtime an answer reaches

A decision passes the gate when the installed record has its generation and the identity of the
runtime it is for. The identity is the text of an address, so what it says about the runtime depends
on who else may have had the address: two runtimes that are live at once have two addresses, but the
gate does not keep its runtime alive. As long as the installed runtime is live, or at least no other
one is published at its address, the record belongs to the runtime it was installed for, and a
delivery is for the runtime that asked. -/

namespace AgentMultiplexer.Daemon.Permission

open Function List Transition Permission.State Entry

/-! ## The conditions -/

/-- A record of the generation was installed for the runtime. -/
def Entry.installs (generation : String) (handle : Handle) : Entry → Bool
  | .installed g h _ => g = generation && h = handle
  | _ => false

/-- A record of the generation was installed. -/
def Entry.names (generation : String) : Entry → Bool
  | .installed g _ _ => g = generation
  | _ => false

variable {log : List Entry}

theorem any_installs {generation : String} {handle : Handle} :
    log.any (installs generation handle) = true ↔
      ∃ excluded, installed generation handle excluded ∈ log := by
  rw [List.any_eq_true]
  constructor
  · rintro ⟨e, he, h⟩
    cases e with
    | installed g h' excluded =>
      simp only [installs, Bool.and_eq_true, decide_eq_true_eq] at h
      obtain ⟨rfl, rfl⟩ := h
      exact ⟨excluded, he⟩
    | _ => cases h
  · rintro ⟨excluded, he⟩
    exact ⟨_, he, by simp [installs]⟩

namespace State

/-- Random generations are new. -/
def fresh (s : State) : Event → Bool
  | .observe _ (some generation) => s.log.all fun e => !e.names generation
  | _ => true

/-- No runtime becomes unreachable while it is the installed one. -/
def retained (s : State) : Event → Bool
  | .exit handle => s.runtime.all fun rt => !s.log.any (Entry.installs rt.generation handle)
  | _ => true

/-- No runtime is published, or appears, at the address of the installed record, unless the record
    was installed for it. -/
def distinct (s : State) : Event → Bool
  | .appear handle => s.runtime.all fun rt => rt.identity ≠ permissionRuntimeIdentity handle
  | .observe c _ =>
    match s.calls.lookup c, s.runtime with
    | some ⟨_, .observing handle _⟩, some rt =>
      rt.identity ≠ permissionRuntimeIdentity handle ||
        s.log.any (Entry.installs rt.generation handle)
    | _, _ => true
  | _ => true

/-- The two ways in which the record stays with its runtime. -/
def regular (retains : Bool) (s : State) (e : Event) : Bool :=
  s.fresh e && if retains then s.retained e else s.distinct e

end State

/-! ## The invariant -/

/-- What the history says of generations. -/
structure LogOk (log : List Entry) : Prop where
  unique : ∀ {g h ex h' ex'}, Entry.installed g h ex ∈ log → Entry.installed g h' ex' ∈ log →
    h = h' ∧ ex = ex'
  delivered : ∀ {g id h}, Entry.delivered g id h ∈ log → ∃ h' ex, Entry.installed g h' ex ∈ log
  published : ∀ {h g}, Entry.published h g ∈ log → ∃ ex, Entry.installed g h ex ∈ log
  accepted : ∀ {g id h}, Entry.accepted g id h ∈ log → ∃ ex, Entry.installed g h ex ∈ log

structure RecordOk (maps : MapRef → Finset String) (log : List Entry) (rt : PermissionRuntime) :
    Prop where
  apart : rt.requests ≠ rt.claimed ∧ rt.requests ≠ rt.excluded ∧ rt.claimed ≠ rt.excluded
  owner : ∃ h ex, Entry.installed rt.generation h ex ∈ log ∧
    rt.identity = permissionRuntimeIdentity h ∧
    maps rt.excluded = (ex.filter fun id => !blank id).toFinset
  bound : ∀ id ∈ maps rt.requests, Entry.bound rt.generation id ∈ log ∧ id ∉ maps rt.excluded
  claimed : ∀ id h, Entry.delivered rt.generation id h ∈ log → id ∈ maps rt.claimed

/-- A decision that `consume` let through. -/
structure Claimed (maps : MapRef → Finset String) (log : List Entry) (rt : PermissionRuntime)
    (g id : String) (h : Handle) : Prop where
  generation : rt.generation = g
  claimed : id ∈ maps rt.claimed
  excluded : id ∉ maps rt.excluded
  bound : Entry.bound g id ∈ log
  owner : ∃ ex, Entry.installed g h ex ∈ log
  undelivered : ∀ h', Entry.delivered g id h' ∉ log

/-- What a call knows where it is. -/
def PhaseOk (s : State) (call : Call) : Phase → Prop
  | .observing handle _ => handle ∈ s.live
  | .validating rt => s.runtime = some rt ∧
      (∀ id h, call = .bindRequest id h → id ∉ s.maps rt.excluded) ∧
      ∀ g id h, call = .consume g id h → Claimed s.maps s.log rt g id h
  | .binding rt => s.runtime = some rt ∧
      ∀ id h, call = .bindRequest id h → id ∉ s.maps rt.excluded
  | .delivering => ∃ rt, s.runtime = some rt ∧
      ∀ g id h, call = .consume g id h → Claimed s.maps s.log rt g id h
  | _ => True

structure Inv (retains : Bool) (s : State) : Prop where
  lock : ∀ c, s.holder = some c ↔ ∃ r, s.calls.lookup c = some r ∧ r.phase.locked = true
  log : LogOk s.log
  record : ∀ rt, s.runtime = some rt → RecordOk s.maps s.log rt
  formed : ∀ c r, s.calls.lookup c = some r → r.call.wellFormed = true ∧
    ∀ h, r.call.handle = some h → h ∈ s.live
  phases : ∀ c r, s.calls.lookup c = some r → PhaseOk s r.call r.phase
  live : ∀ h ∈ s.live, ∀ h' ∈ s.live,
    permissionRuntimeIdentity h = permissionRuntimeIdentity h' → h = h'
  /-- A live runtime with the installed identity is the installed one, or about to be observed. -/
  near : ∀ rt h ex, s.runtime = some rt → Entry.installed rt.generation h ex ∈ s.log →
    ∀ h' ∈ s.live, permissionRuntimeIdentity h' = rt.identity →
      h' = h ∨ ∃ c call ex', s.calls.lookup c = some ⟨call, .observing h' ex'⟩
  kept : retains = true → ∀ rt h ex, s.runtime = some rt →
    Entry.installed rt.generation h ex ∈ s.log → h ∈ s.live

/-- The generation and the runtime that an entry takes for its owner. -/
def Entry.owner : Entry → Option (String × Handle)
  | .delivered g _ handle | .accepted g _ handle | .published handle g => some (g, handle)
  | _ => none

theorem LogOk.cons {e : Entry} (h : LogOk log) (hnew : ∀ g handle ex, e = .installed g handle ex →
      ∀ handle' ex', .installed g handle' ex' ∉ log)
    (hold : ∀ g handle, e.owner = some (g, handle) → ∃ ex, .installed g handle ex ∈ log) :
    LogOk (e :: log) := by
  have hkeep : ∀ {g handle}, (∃ ex, .installed g handle ex ∈ log) →
      ∃ ex, .installed g handle ex ∈ e :: log := fun ⟨ex, hex⟩ =>
    ⟨ex, mem_cons_of_mem _ hex⟩
  refine ⟨fun {g handle ex handle' ex'} h₁ h₂ => ?_, fun {g id handle} hmem => ?_,
    fun {handle g} hmem => ?_, fun {g id handle} hmem => ?_⟩
  · rcases mem_cons.mp h₁ with h₁ | h₁ <;> rcases mem_cons.mp h₂ with h₂ | h₂
    · cases h₁.trans h₂.symm
      exact ⟨rfl, rfl⟩
    · exact absurd h₂ (hnew g handle ex h₁.symm handle' ex')
    · exact absurd h₁ (hnew g handle' ex' h₂.symm handle ex)
    · exact h.unique h₁ h₂
  · rcases mem_cons.mp hmem with rfl | hmem
    · exact ⟨handle, hkeep (hold g handle rfl)⟩
    · exact (h.delivered hmem).imp fun _ => hkeep
  · rcases mem_cons.mp hmem with rfl | hmem
    · exact hkeep (hold g handle rfl)
    · exact hkeep (h.published hmem)
  · rcases mem_cons.mp hmem with rfl | hmem
    · exact hkeep (hold g handle rfl)
    · exact hkeep (h.accepted hmem)

section invariant

variable {retains : Bool} {s s' : State} {c d : Caller} {call : Call} {p p' : Phase} {r : Running}

theorem inv_initial : Inv retains .initial where
  lock c := by simp [initial]
  log := ⟨nofun, nofun, nofun, nofun⟩
  record := nofun
  formed := nofun
  phases := nofun
  live := nofun
  near := nofun
  kept := nofun

theorem phaseOk_of_unlocked (h : p.locked = false) : PhaseOk s call p := by
  cases p with
  | locking => trivial
  | dropping => trivial
  | _ => cases h

theorem Claimed.frame {maps maps' : MapRef → Finset String}
    {rt : PermissionRuntime} {g id : String} {handle : Handle}
    (h : Claimed maps log rt g id handle) (hexcluded : maps' rt.excluded = maps rt.excluded)
    (hclaimed : maps' rt.claimed = maps rt.claimed) : Claimed maps' log rt g id handle := { h with
  claimed := by rw [hclaimed]; exact h.claimed
  excluded := by rw [hexcluded]; exact h.excluded }

/-- What a call knows survives what the others do without the lock. -/
theorem PhaseOk.frame (h : PhaseOk s call p) (hrt : s'.runtime = s.runtime) (hlog : s'.log = s.log)
    (hmaps : ∀ rt, s.runtime = some rt → s'.maps rt.excluded = s.maps rt.excluded ∧
      s'.maps rt.claimed = s.maps rt.claimed)
    (hlive : ∀ handle ex, p = .observing handle ex → handle ∈ s.live → handle ∈ s'.live) :
    PhaseOk s' call p := by
  cases p with
  | observing handle ex => exact hlive handle ex rfl h
  | validating rt =>
    obtain ⟨hinstalled, hbind, hconsume⟩ := h
    obtain ⟨hexcluded, hclaimed⟩ := hmaps rt hinstalled
    refine ⟨hrt.trans hinstalled, fun id handle hcall => ?_, fun g id handle hcall => ?_⟩
    · rw [hexcluded]
      exact hbind id handle hcall
    · rw [hlog]
      exact (hconsume g id handle hcall).frame hexcluded hclaimed
  | binding rt =>
    obtain ⟨hinstalled, hbind⟩ := h
    refine ⟨hrt.trans hinstalled, fun id handle hcall => ?_⟩
    rw [(hmaps rt hinstalled).1]
    exact hbind id handle hcall
  | delivering =>
    obtain ⟨rt, hinstalled, hconsume⟩ := h
    obtain ⟨hexcluded, hclaimed⟩ := hmaps rt hinstalled
    refine ⟨rt, hrt.trans hinstalled, fun g id handle hcall => ?_⟩
    rw [hlog]
    exact (hconsume g id handle hcall).frame hexcluded hclaimed
  | _ => trivial

theorem Inv.unlocked (h : Inv retains s) (hc : s.calls.lookup c = some r)
    (hlocked : r.phase.locked = true) (hne : d ≠ c) {r' : Running}
    (hd : s.calls.lookup d = some r') : r'.phase.locked = false := by
  by_contra hnot
  have hd' := (h.lock d).mpr ⟨r', hd, by simpa using hnot⟩
  have hc' := (h.lock c).mpr ⟨r, hc, hlocked⟩
  rw [hd'] at hc'
  exact hne (Option.some.inj hc')

/-- A call begins or moves on, and may get the lock or create the runtime it is to observe. -/
theorem Inv.moveCall {holder : Option Caller} {live : List Handle} {serial : Nat}
    (h : Inv retains s) (hself : holder = some c ↔ p'.locked = true)
    (hothers : ∀ d, d ≠ c → (holder = some d ↔ s.holder = some d))
    (hformed : call.wellFormed = true ∧ ∀ handle, call.handle = some handle → handle ∈ live)
    (hok : PhaseOk { s with live := live } call p')
    (hnear : ∀ call' handle ex rt h0 ex0, s.calls.lookup c = some ⟨call', .observing handle ex⟩ →
      s.runtime = some rt → .installed rt.generation h0 ex0 ∈ s.log →
      permissionRuntimeIdentity handle = rt.identity → handle = h0)
    (hlive : s.live ⊆ live) (hapart : ∀ a ∈ live, ∀ b ∈ live,
      permissionRuntimeIdentity a = permissionRuntimeIdentity b → a = b)
    (hnew : ∀ handle ∈ live, handle ∈ s.live ∨ ∃ ex, p' = .observing handle ex) :
    Inv retains ({ s with holder := holder, live := live, serial := serial }.setCall c call p') := by
  have hlookup : ∀ d, (s.calls.insert c ⟨call, p'⟩).lookup d =
      if d = c then some ⟨call, p'⟩ else s.calls.lookup d := fun d => GoMap.lookup_insert_ite
  refine ⟨fun d => ?_, h.log, h.record, fun d r hd => ?_, fun d r hd => ?_, hapart, ?_, ?_⟩
  · simp only [setCall, hlookup]
    split
    next heq => simpa [heq] using hself
    next hne => exact (hothers d hne).trans (h.lock d)
  · rcases GoMap.lookup_insert_eq_some.mp hd with ⟨-, rfl⟩ | ⟨-, hd⟩
    · exact hformed
    · exact (h.formed d r hd).imp_right fun hin handle hh => hlive (hin handle hh)
  · rcases GoMap.lookup_insert_eq_some.mp hd with ⟨-, rfl⟩ | ⟨-, hd⟩
    · exact hok
    · exact (h.phases d r hd).frame rfl rfl (fun _ _ => ⟨rfl, rfl⟩) fun _ _ _ hin => hlive hin
  · intro rt h0 ex hrt hinstalled h' hin hid
    simp only [setCall, hlookup]
    rcases hnew h' hin with hold | ⟨ex', rfl⟩
    · rcases h.near rt h0 ex hrt hinstalled h' hold hid with heq | ⟨d, call', ex', hd⟩
      · exact .inl heq
      · by_cases hdc : d = c
        · exact .inl (hnear call' h' ex' rt h0 ex (hdc ▸ hd) hrt hinstalled hid)
        · exact .inr ⟨d, call', ex', by rw [if_neg hdc]; exact hd⟩
    · exact .inr ⟨c, call, ex', if_pos rfl⟩
  · exact fun hret rt h0 ex hrt hinstalled => hlive (h.kept hret rt h0 ex hrt hinstalled)

theorem Inv.setCall (h : Inv retains s) (hc : s.calls.lookup c = some ⟨call, p⟩)
    (hp : p.locked = true) (hp' : p'.locked = true) (hok : PhaseOk s call p')
    (hnear : ∀ handle ex rt h0 ex0, p = .observing handle ex → s.runtime = some rt →
      .installed rt.generation h0 ex0 ∈ s.log →
      permissionRuntimeIdentity handle = rt.identity → handle = h0) :
    Inv retains (s.setCall c call p') := by
  refine h.moveCall (iff_of_true ((h.lock c).mpr ⟨_, hc, hp⟩) hp') (fun _ _ => .rfl)
    (h.formed c _ hc) hok (fun call' handle ex rt h0 ex0 hd => ?_) (.refl _) h.live
    fun _ => .inl
  cases hc.symm.trans hd
  exact hnear handle ex rt h0 ex0 rfl

/-- The call that has the lock changes the record, its maps or the history. -/
theorem Inv.change {runtime : Option PermissionRuntime} {maps : MapRef → Finset String} {next : Nat}
    (h : Inv retains s) (hc : s.calls.lookup c = some r) (hlocked : r.phase.locked = true)
    (hlog : LogOk log) (hrecord : ∀ rt, runtime = some rt → RecordOk maps log rt)
    (hnear : ∀ rt h ex, runtime = some rt → .installed rt.generation h ex ∈ log →
      ∀ h' ∈ s.live, permissionRuntimeIdentity h' = rt.identity →
        h' = h ∨ ∃ c call ex', s.calls.lookup c = some ⟨call, .observing h' ex'⟩)
    (hkept : retains = true → ∀ rt h ex, runtime = some rt →
      .installed rt.generation h ex ∈ log → h ∈ s.live)
    (hphase : PhaseOk { s with runtime, maps, next, log } r.call r.phase) :
    Inv retains { s with runtime, maps, next, log } := by
  refine { h with log := hlog, record := hrecord, phases := fun d r' hd => ?_, near := hnear,
                  kept := hkept }
  by_cases hdc : d = c
  · rw [hdc, hc] at hd
    cases hd
    exact hphase
  · exact phaseOk_of_unlocked (h.unlocked hc hlocked hdc hd)

/-! ## The record under the lock -/

section record

variable {rt : PermissionRuntime} {handle : Handle} {g id : String}

section

variable (h : Inv retains s)

include h

/-- Under the lock, and unless it is about to be observed, a live runtime with the installed
    identity is the one the record was installed for. -/
theorem Inv.owner_of_identity (hc : s.calls.lookup c = some r)
    (hlocked : r.phase.locked = true) (hnot : ∀ handle ex, r.phase ≠ .observing handle ex)
    (hrt : s.runtime = some rt) (hlive : handle ∈ s.live)
    (hid : rt.identity = permissionRuntimeIdentity handle) :
    ∃ ex, .installed rt.generation handle ex ∈ s.log := by
  obtain ⟨owner, ex, howner, -⟩ := (h.record rt hrt).owner
  rcases h.near rt owner ex hrt howner handle hlive hid.symm with rfl | ⟨d, call, ex', hd⟩
  · exact ⟨ex, howner⟩
  by_cases hdc : d = c
  · rw [hdc, hc] at hd
    cases hd
    exact absurd rfl (hnot handle ex')
  · have := h.unlocked hc hlocked hdc hd
    cases this

/-- An entry of the history that installs nothing, with what it changes in the maps. -/
theorem Inv.record_entry {e : Entry} {maps : MapRef → Finset String}
    (hc : s.calls.lookup c = some r) (hlocked : r.phase.locked = true)
    (hphase : PhaseOk { s with maps := maps, log := e :: s.log } r.call r.phase)
    (hnew : ∀ g handle ex, e ≠ .installed g handle ex)
    (hold : ∀ g handle, e.owner = some (g, handle) → ∃ ex, .installed g handle ex ∈ s.log)
    (hmaps : ∀ rt, s.runtime = some rt → maps rt.excluded = s.maps rt.excluded ∧
      (∀ id ∈ maps rt.requests, id ∈ s.maps rt.requests ∨
        e = .bound rt.generation id ∧ id ∉ s.maps rt.excluded) ∧
      s.maps rt.claimed ⊆ maps rt.claimed ∧
      ∀ id handle, e = .delivered rt.generation id handle → id ∈ maps rt.claimed) :
    Inv retains { s with maps := maps, log := e :: s.log } := by
  have hmem : ∀ {g handle ex}, .installed g handle ex ∈ e :: s.log →
      .installed g handle ex ∈ s.log := fun hmem =>
    (mem_cons.mp hmem).resolve_left fun heq => hnew _ _ _ heq.symm
  refine h.change hc hlocked ?_ ?_ ?_ ?_ hphase
  · exact h.log.cons (fun g handle ex heq => absurd heq (hnew g handle ex)) hold
  · intro rt hrt
    have hrecord := h.record rt hrt
    obtain ⟨hexcluded, hbound, hclaimed, hdelivered⟩ := hmaps rt hrt
    refine ⟨hrecord.apart, ?_, fun id hid => ?_, fun id handle hdel => ?_⟩
    · obtain ⟨owner, ex, howner, hid, hex⟩ := hrecord.owner
      exact ⟨owner, ex, mem_cons_of_mem _ howner, hid, hexcluded.trans hex⟩
    · rw [hexcluded]
      rcases hbound id hid with hid | ⟨rfl, hout⟩
      · exact ⟨mem_cons_of_mem _ (hrecord.bound id hid).1, (hrecord.bound id hid).2⟩
      · exact ⟨mem_cons_self, hout⟩
    · rcases mem_cons.mp hdel with hdel | hdel
      · exact hdelivered id handle hdel.symm
      · exact hclaimed (hrecord.claimed id handle hdel)
  · exact fun rt owner ex hrt hm => h.near rt owner ex hrt (hmem hm)
  · exact fun hret rt owner ex hrt hm => h.kept hret rt owner ex hrt (hmem hm)

theorem Inv.claim (hc : s.calls.lookup c = some r)
    (hphase : r.phase = .checking) (hrt : s.runtime = some rt)
    (howner : ∃ ex, .installed rt.generation handle ex ∈ s.log) :
    Inv retains (s.claim rt id handle) := by
  obtain ⟨hrc, -, hce⟩ := (h.record rt hrt).apart
  rw [State.claim, ← hrt]
  refine h.record_entry hc (by rw [hphase]; rfl) (by rw [hphase]; trivial) nofun ?_ ?_
  · intro g' handle' heq
    cases heq
    exact howner
  · intro rt' hrt'
    cases hrt.symm.trans hrt'
    refine ⟨update_of_ne hce.symm _ _, fun id' hid' => .inl ?_, ?_, nofun⟩
    · rwa [update_of_ne hrc] at hid'
    · simp [Finset.subset_insert]

theorem Inv.claimed (hrt : s.runtime = some rt) (hg : rt.generation = g)
    (howner : ∃ ex, .installed rt.generation handle ex ∈ s.log)
    (hreq : id ∈ s.maps rt.requests) (hclaimed : id ∉ s.maps rt.claimed) :
    Claimed (s.claim rt id handle).maps (s.claim rt id handle).log rt g id handle := by
  have hrecord := h.record rt hrt
  obtain ⟨-, -, hce⟩ := hrecord.apart
  obtain ⟨ex, howner⟩ := howner
  obtain ⟨hbound, hexcluded⟩ := hrecord.bound id hreq
  subst hg
  refine ⟨rfl, ?_, ?_, mem_cons_of_mem _ hbound, ⟨ex, mem_cons_of_mem _ howner⟩, ?_⟩
  · simp [State.claim]
  · simpa [State.claim, update_of_ne hce.symm] using hexcluded
  · intro handle' hmem
    exact hclaimed (hrecord.claimed id handle' (by simpa [State.claim] using hmem))

theorem Inv.bind (hc : s.calls.lookup c = some ⟨call, .binding rt⟩)
    (hrt : s.runtime = some rt) (hexcluded : id ∉ s.maps rt.excluded) :
    Inv retains (s.bind rt id) := by
  obtain ⟨hrc, hre, -⟩ := (h.record rt hrt).apart
  obtain ⟨-, hphase⟩ := h.phases c _ hc
  have hsame : ∀ set, Function.update s.maps rt.requests set rt.excluded = s.maps rt.excluded :=
    fun set => update_of_ne hre.symm _ _
  rw [State.bind, ← hrt]
  refine h.record_entry hc rfl ⟨hrt, fun id' handle' hcall => ?_⟩ nofun nofun ?_
  · simpa only [hsame] using hphase id' handle' hcall
  intro rt' hrt'
  cases hrt.symm.trans hrt'
  refine ⟨hsame _, fun id' hid' => ?_, ?_, nofun⟩
  · rw [update_self] at hid'
    rcases Finset.mem_insert.mp hid' with rfl | hid'
    · exact .inr ⟨rfl, hexcluded⟩
    · exact .inl hid'
  · rw [update_of_ne hrc.symm]

theorem Inv.install {excluded : List String}
    (hc : s.calls.lookup c = some ⟨call, .observing handle excluded⟩)
    (hfresh : ∀ handle' ex, .installed g handle' ex ∉ s.log) :
    Inv retains (s.install handle excluded g) := by
  have hlive : handle ∈ s.live := h.phases c _ hc
  have hlog : LogOk (s.install handle excluded g).log := by
    refine h.log.cons ?_ ?_
    · rintro g' handle' ex heq
      cases heq
      exact hfresh
    · nofun
  refine h.change hc rfl hlog ?_ ?_ ?_ hlive
  · intro rt' hrt'
    cases hrt'
    have hnext : ∀ n : Nat, n ≠ n + 1 ∧ n ≠ n + 2 ∧ n + 1 ≠ n + 2 := by omega
    refine ⟨hnext s.next, ⟨handle, excluded, mem_cons_self, rfl, ?_⟩, ?_, ?_⟩
    · simp
    · intro id hid
      simp at hid
    · intro id handle' hmem
      obtain ⟨owner, ex, howner⟩ := h.log.delivered (show .delivered g id handle' ∈ s.log by
        simpa [State.install] using hmem)
      exact absurd howner (hfresh owner ex)
  · intro rt' owner ex hrt' hmem handle' hlive' hid
    cases hrt'
    obtain ⟨rfl, -⟩ := hlog.unique hmem mem_cons_self
    exact .inl (h.live handle' hlive' owner hlive hid)
  · intro _ rt' owner ex hrt' hmem
    cases hrt'
    obtain ⟨rfl, -⟩ := hlog.unique hmem mem_cons_self
    exact hlive

theorem Inv.remove (hc : s.calls.lookup c = some ⟨call, .removing⟩) :
    Inv retains { s with runtime := none } :=
  h.change hc rfl h.log nofun nofun (fun _ => nofun) trivial

end

end record

/-! ## The calls and the runtimes -/

section calls

variable {handle : Handle}

section

variable (h : Inv retains s)

include h

theorem Inv.begin (hc : s.calls.lookup c = none) (hformed : call.wellFormed = true)
    (hlive : ∀ handle, call.handle = some handle → handle ∈ s.live) :
    Inv retains (s.setCall c call call.begin) := by
  have hbegin : call.begin.locked = false := by cases call <;> rfl
  have hself : s.holder ≠ some c := fun hd => by
    obtain ⟨r, hr, -⟩ := (h.lock c).mp hd
    rw [hc] at hr
    cases hr
  refine h.moveCall (iff_of_false hself (by simp [hbegin])) (fun _ _ => .rfl) ⟨hformed, hlive⟩
    (phaseOk_of_unlocked hbegin) (fun _ _ _ _ _ _ hd => ?_) (.refl _) h.live
    fun _ => .inl
  rw [hc] at hd
  cases hd

theorem Inv.acquire (hc : s.calls.lookup c = some ⟨call, .locking⟩) (hholder : s.holder = none) :
    Inv retains ({ s with holder := some c }.setCall c call call.first) := by
  have hformed := h.formed c _ hc
  refine h.moveCall (iff_of_true rfl ?_) (fun d hne => ?_) hformed ?_ (fun _ _ _ _ _ _ hd => ?_)
    (.refl _) h.live fun _ => .inl
  · cases call with
    | publish baseline => cases baseline <;> rfl
    | _ => rfl
  · simp [hholder, Ne.symm hne]
  · cases call with
    | publish baseline => cases baseline <;> trivial
    | observe handle excluded => exact hformed.2 handle rfl
    | _ => trivial
  · rw [hc] at hd
    cases hd

theorem Inv.finish {holder : Option Caller}
    (hc : s.calls.lookup c = some r) (hphase : r.phase = .unlocking ∨ r.phase = .dropping)
    (hholder : ∀ d, holder = some d ↔ d ≠ c ∧ s.holder = some d) :
    Inv retains { s with holder := holder, calls := s.calls.erase c } := by
  refine { h with lock := fun d => ?_, near := ?_,
                  formed := fun d r hd => h.formed d r (GoMap.lookup_of_erase hd),
                  phases := fun d r hd => h.phases d r (GoMap.lookup_of_erase hd) }
  · simp only [hholder, h.lock d, GoMap.lookup_erase_eq_some, and_assoc, exists_and_left]
  · intro rt owner ex hrt hmem handle hlive hid
    refine (h.near rt owner ex hrt hmem handle hlive hid).imp_right ?_
    rintro ⟨d, call', ex', hd⟩
    refine ⟨d, call', ex', GoMap.lookup_erase_eq_some.mpr ⟨?_, hd⟩⟩
    rintro rfl
    rw [hc] at hd
    cases hd
    rcases hphase with hphase | hphase <;> cases hphase

/-- `retireRequest` takes a request out of the installed record's map, without the lock. -/
theorem Inv.retireRequest (id : String) (handle : Handle) :
    Inv retains (s.retireRequest id handle) := by
  rw [State.retireRequest]
  split
  next rt hrt =>
    split
    next hid =>
      have hrecord := h.record rt hrt
      obtain ⟨hrc, hre, -⟩ := hrecord.apart
      have hexcluded : Function.update s.maps rt.requests ((s.maps rt.requests).erase id)
          rt.excluded = s.maps rt.excluded := update_of_ne hre.symm _ _
      have hclaimed : Function.update s.maps rt.requests ((s.maps rt.requests).erase id)
          rt.claimed = s.maps rt.claimed := update_of_ne hrc.symm _ _
      rw [← hrt]
      refine { h with record := fun rt' hrt' => ?_, phases := fun d r hd => ?_ }
      · cases hrt.symm.trans hrt'
        refine ⟨hrecord.apart, ?_, fun id' hid' => ?_, fun id' handle' hdel => ?_⟩
        · obtain ⟨owner, ex, howner, hidentity, hex⟩ := hrecord.owner
          exact ⟨owner, ex, howner, hidentity, hexcluded.trans hex⟩
        · simp only [update_self, Finset.mem_erase] at hid'
          exact ⟨(hrecord.bound id' hid'.2).1,
            fun hmem => (hrecord.bound id' hid'.2).2 (hexcluded.subset hmem)⟩
        · exact hclaimed.symm.subset (hrecord.claimed id' handle' hdel)
      · -- a call under the lock knows of the installed record's other two maps only
        refine (h.phases d r hd).frame rfl rfl (fun rt' hrt' => ?_) fun _ _ _ hlive => hlive
        cases hrt.symm.trans hrt'
        exact ⟨hexcluded, hclaimed⟩
    · exact h
  · exact h

/-- A new runtime has an address of its own among the live ones. -/
theorem Inv.live_allocate (hnew : s.allocates handle = true) :
    ∀ a ∈ (s.allocate handle).live, ∀ b ∈ (s.allocate handle).live,
      permissionRuntimeIdentity a = permissionRuntimeIdentity b → a = b := by
  simp only [allocates, Bool.and_eq_true, all_eq_true, decide_eq_true_eq] at hnew
  intro a ha b hb hid
  rcases mem_cons.mp ha with rfl | ha' <;> rcases mem_cons.mp hb with rfl | hb'
  · rfl
  · exact absurd hid.symm (hnew.2 b hb')
  · exact absurd hid (hnew.2 a ha')
  · exact h.live a ha' b hb' hid

/-- A runtime appears, at an address that the installed record does not have. -/
theorem Inv.appear (hnew : s.allocates handle = true)
    (hrt : ∀ rt, s.runtime = some rt → rt.identity ≠ permissionRuntimeIdentity handle) :
    Inv retains (s.allocate handle) := by
  have hkeep : s.live ⊆ (s.allocate handle).live := subset_cons_self ..
  refine { h with formed := fun d r hd => ?_, phases := fun d r hd => ?_, near := ?_,
                  live := h.live_allocate hnew,
                  kept := fun hret rt owner ex hrt hmem => hkeep (h.kept hret rt owner ex hrt hmem) }
  · exact (h.formed d r hd).imp_right fun hlive handle' hh => hkeep (hlive handle' hh)
  · exact (h.phases d r hd).frame rfl rfl (fun _ _ => ⟨rfl, rfl⟩) fun _ _ _ hlive => hkeep hlive
  · exact fun rt owner ex hrt' hmem => forall_mem_cons.mpr
      ⟨fun hid => absurd hid.symm (hrt rt hrt'), h.near rt owner ex hrt' hmem⟩

/-- A publication creates a runtime, at any address no live one has, and is about to observe it. -/
theorem Inv.create {excluded : List String}
    (hc : s.calls.lookup c = some ⟨call, .creating excluded⟩) (hnew : s.allocates handle = true) :
    Inv retains ((s.allocate handle).setCall c call (.observing handle excluded)) := by
  obtain ⟨hformed, hlive⟩ := h.formed c _ hc
  refine h.moveCall (iff_of_true ((h.lock c).mpr ⟨_, hc, rfl⟩) rfl) (fun _ _ => .rfl)
    ⟨hformed, fun handle' hh => mem_cons_of_mem _ (hlive handle' hh)⟩ mem_cons_self
    (fun _ _ _ _ _ _ hd => ?_) (subset_cons_self ..) (h.live_allocate hnew)
    (forall_mem_cons.mpr ⟨.inr ⟨excluded, rfl⟩, fun _ => .inl⟩)
  rw [hc] at hd
  cases hd

theorem Inv.exit (hunused : ∀ d r, s.calls.lookup d = some r → r.uses handle = false)
    (hret : retains = true → ∀ rt ex, s.runtime = some rt →
      .installed rt.generation handle ex ∉ s.log) :
    Inv retains { s with live := s.live.filter (· ≠ handle) } := by
  have hkeep : ∀ {h'}, h' ∈ s.live → h' ≠ handle → h' ∈ s.live.filter (· ≠ handle) :=
    fun hlive hne => mem_filter.mpr ⟨hlive, by simpa using hne⟩
  have hold : ∀ {h'}, h' ∈ s.live.filter (· ≠ handle) → h' ∈ s.live :=
    fun hlive => (mem_filter.mp hlive).1
  refine { h with formed := fun d r hd => ?_, phases := fun d r hd => ?_, kept := ?_,
                  live := fun a ha b hb => h.live a (hold ha) b (hold hb),
                  near := fun rt owner ex hrt hmem h' hlive =>
                    h.near rt owner ex hrt hmem h' (hold hlive) }
  · refine (h.formed d r hd).imp_right fun hlive h' hh => hkeep (hlive h' hh) ?_
    rintro rfl
    have := hunused d r hd
    rw [Running.uses, hh] at this
    simp at this
  · refine (h.phases d r hd).frame rfl rfl (fun _ _ => ⟨rfl, rfl⟩) fun h' ex hphase hlive => ?_
    refine hkeep hlive ?_
    rintro rfl
    have := hunused d r hd
    rw [Running.uses, hphase] at this
    simp at this
  · intro hr rt owner ex hrt hmem
    refine hkeep (h.kept hr rt owner ex hrt hmem) ?_
    rintro rfl
    exact hret hr rt ex hrt hmem

end

end calls

/-! ## One step -/

section steps

variable {handle : Handle} {excluded : List String}

/-- The end of `observeLocked`: the record, if it has the identity, is the runtime's. -/
theorem Inv.observed {result : Option String} (h : Inv retains s)
    (hc : s.calls.lookup c = some ⟨call, .observing handle excluded⟩)
    (hown : ∀ rt, s.runtime = some rt → permissionRuntimeIdentity handle = rt.identity →
      ∃ ex, .installed rt.generation handle ex ∈ s.log)
    (hresult : ∀ g, result = some g → ∃ ex, .installed g handle ex ∈ s.log) :
    Inv retains ((s.publishes call handle result).setCall c call .unlocking) := by
  have hlive : handle ∈ s.live := h.phases c _ hc
  have hend : ∀ {s'}, Inv retains s' → s'.calls = s.calls → s'.runtime = s.runtime →
      (∀ g h' ex, .installed g h' ex ∈ s'.log ↔ .installed g h' ex ∈ s.log) →
      Inv retains (s'.setCall c call .unlocking) := by
    intro s' h' hcalls hruntime hlog
    refine h'.setCall (by rw [hcalls]; exact hc) rfl rfl trivial ?_
    intro handle' ex rt owner ex0 hphase hrt howner hid
    cases hphase
    rw [hruntime] at hrt
    obtain ⟨ex', hex'⟩ := hown rt hrt hid
    exact (h.log.unique hex' ((hlog _ _ _).mp howner)).1
  cases result with
  | none => exact hend h rfl rfl fun _ _ _ => .rfl
  | some g =>
    cases call with
    | publish baseline =>
      have hpublished : Inv retains { s with log := .published handle g :: s.log } := by
        refine h.record_entry hc rfl hlive nofun (fun g' h' heq => ?_) fun _ _ =>
          ⟨rfl, fun _ => .inl, subset_rfl, nofun⟩
        cases heq
        exact hresult g rfl
      refine hend hpublished rfl rfl fun g' h' ex => ?_
      exact mem_cons.trans (or_iff_right nofun)
    | _ => exact hend h rfl rfl fun _ _ _ => .rfl

theorem Inv.observe {generation : Option String} (h : Inv retains s)
    (hc : s.calls.lookup c = some ⟨call, .observing handle excluded⟩)
    (hfresh : ∀ g, generation = some g → ∀ h' ex, .installed g h' ex ∉ s.log)
    (hdistinct : ∀ rt, s.runtime = some rt → rt.identity = permissionRuntimeIdentity handle →
      ∃ ex, .installed rt.generation handle ex ∈ s.log) :
    Inv retains (((s.observeLocked handle excluded generation).1.publishes call handle
      (s.observeLocked handle excluded generation).2).setCall c call .unlocking) := by
  unfold observeLocked
  split
  next current hcurrent =>
    obtain ⟨hrt, hid⟩ := Option.filter_eq_some_iff.mp hcurrent
    have hid : current.identity = permissionRuntimeIdentity handle := by simpa using hid
    refine h.observed hc (fun rt hrt hid => hdistinct rt hrt hid.symm) fun g hg => ?_
    cases hg
    exact hdistinct current hrt hid
  next hcurrent =>
    cases generation with
    | none => exact h.observed hc (fun rt hrt hid => hdistinct rt hrt hid.symm) nofun
    | some g =>
      have hmem : .installed g handle excluded ∈ (s.install handle excluded g).log :=
        mem_cons_self
      refine (h.install hc (hfresh g rfl)).observed hc (fun rt hrt _ => ?_) fun g' hg' => ?_
      · cases hrt
        exact ⟨excluded, hmem⟩
      · cases hg'
        exact ⟨excluded, hmem⟩

theorem remove_cases (s : State) (call : Call) :
    s.remove call = (s, false) ∨ ∃ stops, s.remove call = ({ s with runtime := none }, stops) := by
  cases call with
  | retireTokenAnd token =>
    simp only [remove]
    split
    · split
      · exact .inl rfl
      · exact .inr ⟨true, rfl⟩
    · exact .inl rfl
  | _ => exact .inr ⟨_, rfl⟩

variable {rt : PermissionRuntime} {g id : String}

theorem consumeCheck_eq_some
    (h : s.consumeCheck g id handle = some rt) : s.runtime = some rt ∧ rt.generation = g ∧
      rt.identity = permissionRuntimeIdentity handle ∧ id ∈ s.maps rt.requests ∧
      id ∉ s.maps rt.claimed := by
  obtain ⟨rt', hrt, h⟩ := Option.bind_eq_some_iff.mp h
  split at h
  · cases h
  next hmatch =>
  split at h
  · cases h
  next hreq =>
  split_ifs at h with hclaimed
  cases h
  rw [not_or, not_not, not_not] at hmatch
  exact ⟨hrt, hmatch.1, hmatch.2, not_not.mp hreq, hclaimed⟩

theorem bindCheck_eq_some {id : String}
    (h : s.bindCheck id handle = some rt) : s.runtime = some rt ∧ id ∉ s.maps rt.excluded := by
  obtain ⟨rt', hrt, h⟩ := Option.bind_eq_some_iff.mp h
  split at h
  · cases h
  split at h
  · cases h
  next hexcluded =>
  split_ifs at h
  cases h
  exact ⟨hrt, hexcluded⟩

theorem Inv.consume (h : Inv retains s)
    (hc : s.calls.lookup c = some ⟨.consume g id handle, .checking⟩)
    (hcheck : s.consumeCheck g id handle = some rt) :
    Inv retains ((s.claim rt id handle).setCall c (.consume g id handle) (.validating rt)) := by
  obtain ⟨hrt, hg, hid, hreq, hclaimed⟩ := consumeCheck_eq_some hcheck
  have hlive : handle ∈ s.live := (h.formed c _ hc).2 handle rfl
  have howner := h.owner_of_identity hc rfl nofun hrt hlive hid
  refine (h.claim hc rfl hrt howner).setCall hc rfl rfl ⟨rfl, nofun, ?_⟩ nofun
  intro g' id' handle' heq
  cases heq
  exact h.claimed hrt hg howner hreq hclaimed

theorem Inv.deliver (h : Inv retains s)
    (hc : s.calls.lookup c = some ⟨.consume g id handle, .delivering⟩) :
    Inv retains ({ s with log := .delivered g id handle :: s.log }.setCall c
      (.consume g id handle) .unlocking) := by
  obtain ⟨rt, hrt, hclaimed⟩ := h.phases c _ hc
  have hclaimed := hclaimed g id handle rfl
  have hmoved : Inv retains (s.setCall c (.consume g id handle) .unlocking) :=
    h.setCall hc rfl rfl trivial nofun
  have hc' : (s.setCall c (.consume g id handle) .unlocking).calls.lookup c =
      some ⟨.consume g id handle, .unlocking⟩ := AList.lookup_insert _
  refine hmoved.record_entry hc' rfl trivial nofun (fun g' handle' heq => ?_) fun rt' hrt' =>
    ⟨rfl, fun _ => .inl, subset_rfl, fun id' handle' heq => ?_⟩
  · cases heq
    exact hclaimed.owner
  · cases hrt.symm.trans hrt'
    cases heq
    exact hclaimed.claimed

theorem Inv.move (h : Inv retains s) (hc : s.calls.lookup c = some ⟨call, p⟩)
    (hp : p.locked = true) (hnot : ∀ handle ex, p ≠ .observing handle ex) (hp' : p'.locked = true)
    (hok : PhaseOk s call p') : Inv retains (s.setCall c call p') :=
  h.setCall hc hp hp' hok fun handle ex _ _ _ heq => absurd heq (hnot handle ex)

theorem Inv.removed (h : Inv retains s) (hc : s.calls.lookup c = some ⟨call, .removing⟩) :
    Inv retains ((s.remove call).1.setCall c call
      (if (s.remove call).2 then .stopping else .unlocking)) := by
  rcases remove_cases s call with heq | ⟨stops, heq⟩
  · rw [heq]
    exact h.move hc rfl nofun rfl trivial
  · rw [heq]
    cases stops with
    | true | false => exact (h.remove hc).setCall hc rfl rfl trivial nofun

theorem Inv.bindChecked (h : Inv retains s)
    (hc : s.calls.lookup c = some ⟨.bindRequest id handle, .checking⟩) :
    Inv retains (s.setCall c (.bindRequest id handle)
      ((s.bindCheck id handle).elim .unlocking .validating)) := by
  cases hcheck : s.bindCheck id handle with
  | none => exact h.move hc rfl nofun rfl trivial
  | some rt =>
    obtain ⟨hrt, hexcluded⟩ := bindCheck_eq_some hcheck
    refine h.move hc rfl nofun rfl ⟨hrt, ?_, nofun⟩
    rintro id' handle' heq
    cases heq
    exact hexcluded

theorem Inv.drop (h : Inv retains s)
    (hc : s.calls.lookup c = some ⟨.retireRequest id handle, .dropping⟩) :
    Inv retains { s.retireRequest id handle with calls := s.calls.erase c } := by
  have hcalls : (s.retireRequest id handle).calls = s.calls := by
    unfold State.retireRequest
    repeat' split
    all_goals rfl
  have hretired := h.retireRequest id handle
  rw [← hcalls] at hc ⊢
  refine hretired.finish hc (.inr rfl) fun d => ⟨fun hd => ⟨?_, hd⟩, fun hd => hd.2⟩
  rintro rfl
  obtain ⟨r, hr, hlocked⟩ := (hretired.lock d).mp hd
  rw [hc] at hr
  cases hr
  cases hlocked

theorem Inv.release (h : Inv retains s) (hc : s.calls.lookup c = some ⟨call, .unlocking⟩) :
    Inv retains { s with holder := none, calls := s.calls.erase c } := by
  refine h.finish hc (.inl rfl) fun d => ⟨nofun, fun hd => ?_⟩
  have hholder := (h.lock c).mpr ⟨_, hc, rfl⟩
  rw [hholder] at hd
  exact absurd (Option.some.inj hd.2).symm hd.1

end steps

theorem distinct_of_kept {e : Event} (h : Inv retains s) (hret : retains = true)
    (hstep : s.step e = some s') : s.distinct e = true := by
  cases e with
  | appear handle =>
    simp only [step] at hstep
    split_ifs at hstep with hnew
    simp only [allocates, Bool.and_eq_true, all_eq_true, decide_eq_true_eq] at hnew
    simp only [distinct]
    cases hrt : s.runtime with
    | none => rfl
    | some rt =>
      obtain ⟨owner, ex, howner, hid, -⟩ := (h.record rt hrt).owner
      have := hnew.2 owner (h.kept hret rt owner ex hrt howner)
      simpa [hid] using this
  | observe c generation =>
    simp only [distinct]
    split
    next call handle excluded rt hc hrt =>
      obtain ⟨owner, ex, howner, hid, -⟩ := (h.record rt hrt).owner
      have hlive : handle ∈ s.live := h.phases c _ hc
      by_cases heq : rt.identity = permissionRuntimeIdentity handle
      · have := h.live owner (h.kept hret rt owner ex hrt howner) handle hlive (hid.symm.trans heq)
        subst this
        rw [any_installs.mpr ⟨ex, howner⟩, Bool.or_true]
      · simp [heq]
    · rfl
  | _ => rfl

theorem Inv.step {e : Event} (h : Inv retains s) (hregular : regular retains s e = true)
    (hstep : s.step e = some s') : Inv retains s' := by
  simp only [regular, Bool.and_eq_true] at hregular
  obtain ⟨hfresh, hregular⟩ := hregular
  have hdistinct : s.distinct e = true := by
    cases retains with
    | true => exact distinct_of_kept h rfl hstep
    | false => simpa using hregular
  revert hstep
  fun_cases State.step s e with
  | case1 handle hnew =>
    rintro ⟨⟩
    refine h.appear hnew fun rt hrt => ?_
    simpa [distinct, hrt] using hdistinct
  | case3 handle hunused =>
    rintro ⟨⟩
    refine h.exit (fun d r hd => ?_) fun hret rt ex hrt hmem => ?_
    · have := all_eq_true.mp hunused _ (GoMap.mem_entries_iff.mpr hd)
      simpa using this
    · rw [hret] at hregular
      have hnot : s.log.any (installs rt.generation handle) = false := by
        simpa [retained, hrt] using hregular
      rw [any_installs.mpr ⟨ex, hmem⟩] at hnot
      cases hnot
  | case6 c call hc hcond =>
    rintro ⟨⟩
    rw [Bool.and_eq_true] at hcond
    refine h.begin hc hcond.1 fun handle hh => ?_
    have := hcond.2
    rw [hh] at this
    simpa using this
  | case8 c call hholder hc =>
    rintro ⟨⟩
    exact h.acquire hc hholder
  | case10 c excluded call hc =>
    rintro ⟨⟩
    cases excluded with
    | none | some => exact h.move hc rfl nofun rfl trivial
  | case12 _ _ _ hc | case21 _ _ hc | case25 _ _ _ _ hc =>
    rintro ⟨⟩
    exact h.move hc rfl nofun rfl trivial
  | case13 c call excluded handle hc hlive =>
    rintro ⟨⟩
    exact h.move hc rfl nofun rfl hlive
  | case14 c call excluded handle hc _ hnew =>
    rintro ⟨⟩
    exact h.create hc hnew
  | case17 c generation call handle excluded hc _ _ heq =>
    obtain ⟨rfl, rfl⟩ := Prod.ext_iff.mp heq
    rintro ⟨⟩
    refine h.observe hc ?_ fun rt hrt hid => ?_
    · rintro g rfl h' ex hmem
      have := all_eq_true.mp hfresh _ hmem
      simp [names] at this
    · have : s.log.any (installs rt.generation handle) = true := by
        simpa [distinct, hc, hrt, hid] using hdistinct
      exact any_installs.mp this
  | case19 c call hc _ _ hremove =>
    obtain ⟨rfl, rfl⟩ := Prod.ext_iff.mp hremove
    rintro ⟨⟩
    exact h.removed hc
  | case23 c id handle hc =>
    rintro ⟨⟩
    exact h.bindChecked hc
  | case24 c g id handle hc rt hcheck =>
    rintro ⟨⟩
    exact h.consume hc hcheck
  | case27 c ok call rt hc =>
    rintro ⟨⟩
    cases ok with
    | false => exact h.move hc rfl nofun rfl trivial
    | true =>
      obtain ⟨hrt, hbind, hconsume⟩ := h.phases c _ hc
      have hdeliver : PhaseOk s call .delivering := ⟨rt, hrt, hconsume⟩
      cases call with
      | bindRequest id handle => exact h.move hc rfl nofun rfl ⟨hrt, hbind⟩
      | _ => exact h.move hc rfl nofun rfl hdeliver
  | case29 c id handle rt hc =>
    rintro ⟨⟩
    obtain ⟨hrt, hexcluded⟩ := h.phases c _ hc
    exact (h.bind hc hrt (hexcluded id handle rfl)).setCall hc rfl rfl trivial nofun
  | case31 c ok g id handle hc =>
    rintro ⟨⟩
    exact h.deliver hc
  | case33 c id handle hc =>
    rintro ⟨⟩
    exact h.drop hc
  | case35 c call hc =>
    rintro ⟨⟩
    exact h.release hc
  | _ => rintro ⟨⟩

end invariant

/-! ## Whole runs -/

section runs

variable {s s' : State} {c : Caller} {g id : String} {handle : Handle} {events : List Event}

theorem inv_exec {retains : Bool}
    (hregular : Along step (fun s e => regular retains s e = true) .initial events)
    (hrun : exec step .initial events = some s) : Inv retains s :=
  exec_invariant_along (fun s e => regular retains s e = true) (Inv retains)
    (fun _ _ _ h hregular hstep => h.step hregular hstep) inv_initial hregular hrun

/-- **Answers reach only the runtime that asked, at most once.** While no runtime becomes unreachable
    as the installed one, every delivery is for the installed generation, on the runtime the
    generation was created for, for a request that was bound on it and is not in its baseline, and
    the first one for the generation and the request. -/
theorem consume_delivers_to_asker {ok : Bool}
    (hregular : Along State.step (fun s e => State.regular true s e = true) .initial events)
    (hrun : exec State.step .initial events = some s)
    (hcall : s.calls.lookup c = some ⟨.consume g id handle, .delivering⟩)
    (hstep : s.step (.deliver c ok) = some s') :
    (∃ rt, s.runtime = some rt ∧ rt.generation = g) ∧
      (∃ excluded, Entry.installed g handle excluded ∈ s.log ∧ id ∉ excluded) ∧
      (∀ handle' excluded, Entry.installed g handle' excluded ∈ s.log → handle' = handle) ∧
      Entry.bound g id ∈ s.log ∧
      (∀ handle', Entry.delivered g id handle' ∉ s.log) ∧
      s'.log = .delivered g id handle :: s.log := by
  have h := inv_exec hregular hrun
  obtain ⟨rt, hrt, hclaimed⟩ := h.phases c _ hcall
  have hclaimed := hclaimed g id handle rfl
  obtain ⟨excluded, howner⟩ := hclaimed.owner
  refine ⟨⟨rt, hrt, hclaimed.generation⟩, ⟨excluded, howner, ?_⟩, ?_, hclaimed.bound,
    hclaimed.undelivered, ?_⟩
  · intro hmem
    have hformed := (h.formed c _ hcall).1
    simp only [Call.wellFormed, Bool.and_eq_true] at hformed
    obtain ⟨owner, ex, hinstalled, -, hex⟩ := (h.record rt hrt).owner
    rw [hclaimed.generation] at hinstalled
    obtain ⟨-, rfl⟩ := h.log.unique howner hinstalled
    refine hclaimed.excluded ?_
    rw [hex, mem_toFinset, mem_filter]
    exact ⟨hmem, hformed.2⟩
  · intro handle' ex hmem
    exact (h.log.unique hmem howner).1
  · simp only [step, hcall, Option.some.injEq] at hstep
    rw [← hstep]
    rfl

def firstRuntime : Handle := ⟨"*local.instance", "0xc000", 0⟩

/-- A runtime is published and a request is bound on it. -/
def requestBound : List Event :=
  [.call 1 (.publish true), .acquire 1, .snapshot 1 (some ["old"]), .create 1 (some firstRuntime),
    .observe 1 (some "g1"), .release 1, .call 1 (.bindRequest "r" firstRuntime), .acquire 1,
    .check 1, .validate 1 true, .bind 1, .release 1]

def requestAnswered : List Event :=
  requestBound ++ [.call 2 (.consume "g1" "r" firstRuntime), .acquire 2, .check 2, .validate 2 true]

theorem consume_delivers_to_asker_bound : ∃ s s',
    exec State.step .initial requestAnswered = some s ∧
      s.step (.deliver 2 false) = some s' ∧ Entry.bound "g1" "r" ∈ s.log ∧
      ∃ excluded, Entry.installed "g1" firstRuntime excluded ∈ s.log ∧ "r" ∉ excluded := by
  simp only [exists_and_left]
  refine reaches_imp (P := fun s =>
    s.calls.lookup 2 = some ⟨.consume "g1" "r" firstRuntime, .delivering⟩ ∧
      (s.step (.deliver 2 false)).isSome) (by decide +kernel) ?_
  rintro s hs ⟨hcall, hsome⟩
  obtain ⟨s', hs'⟩ := Option.isSome_iff_exists.mp hsome
  obtain ⟨-, howner, -, hbound, -⟩ := consume_delivers_to_asker (.of_check
    (q := regular true) (fun _ _ h => h) (by decide +kernel)) hs hcall hs'
  exact ⟨s', hs', hbound, howner⟩

/-- **A replacement gets a new generation**, as long as no runtime is published at the address the
    installed record still has: a decision with the generation handed out for one runtime is not
    accepted for a later one. -/
theorem stale_generation_refused {earlier later : Handle}
    (hregular : Along State.step (fun s e => State.regular false s e = true) .initial events)
    (hrun : exec State.step .initial events = some s)
    (hpublished : Entry.published earlier g ∈ s.log) (hlater : earlier.serial < later.serial) :
    Entry.accepted g id later ∉ s.log := by
  intro haccepted
  have h := inv_exec hregular hrun
  obtain ⟨_, hearlier⟩ := h.log.published hpublished
  obtain ⟨_, hlater'⟩ := h.log.accepted haccepted
  obtain ⟨rfl, -⟩ := h.log.unique hearlier hlater'
  exact lt_irrefl _ hlater

/-- A second runtime is published and an answer to the first one's request comes for it. -/
def requestReplayed (replacement : Handle) : List Event :=
  requestBound ++
    [.exit firstRuntime, .call 1 (.publish true), .acquire 1, .snapshot 1 (some ["old", "r"]),
      .create 1 (some replacement), .observe 1 (some "g2"), .release 1,
      .call 2 (.consume "g1" "r" replacement), .acquire 2, .check 2]

def elsewhere : Handle := ⟨"*local.instance", "0xd000", 1⟩

theorem stale_generation_refused_elsewhere : ∃ s,
    exec State.step .initial (requestReplayed elsewhere) = some s ∧
      Entry.published firstRuntime "g1" ∈ s.log ∧ Entry.accepted "g1" "r" elsewhere ∉ s.log := by
  refine reaches_imp (P := fun s => .published firstRuntime "g1" ∈ s.log)
    (by decide +kernel) fun s hs hpublished => ⟨hpublished, ?_⟩
  exact stale_generation_refused (Along.of_check (q := regular false)
    (fun _ _ h => h) (by decide +kernel)) hs hpublished (by decide)

/-- The replacement at the address of the runtime that exited. -/
def sameAddress : Handle := ⟨"*local.instance", "0xc000", 1⟩

/-- The first runtime exits and its successor gets its address: the record and its generation stay,
    the new baseline is dropped, and an old answer to an old request is delivered to the
    successor. -/
theorem address_reuse_keeps_generation : ∃ s,
    exec State.step .initial
        (requestReplayed sameAddress ++ [.validate 2 true, .deliver 2 true]) = some s ∧
      Entry.published firstRuntime "g1" ∈ s.log ∧ firstRuntime.serial < sameAddress.serial ∧
      Entry.accepted "g1" "r" sameAddress ∈ s.log ∧ Entry.delivered "g1" "r" sameAddress ∈ s.log := by
  decide +kernel

end runs

end AgentMultiplexer.Daemon.Permission
