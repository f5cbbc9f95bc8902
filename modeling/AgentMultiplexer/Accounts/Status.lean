import AgentMultiplexer.CentralAuth.Generations
import AgentMultiplexer.Theory.GoMap

set_option autoImplicit false

/-! # Status reads of the central Claude profile

A status read looks at the credential record and writes what it saw into the durable profile. It
passes over a profile that is blocked, and a read that finds the record unusable blocks it: so the
profile stays blocked when the record is usable again, for status reads and for deliveries. -/

namespace AgentMultiplexer.Accounts

open CentralAuth Transition

inductive Harness
  | claude | codex
  deriving DecidableEq

/-- `AccountProfile.Mode`, which old stores leave empty. -/
inductive Mode
  | unset | subscription | api
  deriving DecidableEq

inductive ProfileState
  | unconfigured | ready | loginPending | loggedOut | blocked

/-- Neither a status read looks at a profile in such a state nor a delivery is made from it. -/
def ProfileState.closed : ProfileState → Bool
  | .loggedOut | .loginPending | .blocked => true
  | .unconfigured | .ready => false

/-- `hp.AccountProfile` of the central Claude profile; the identity and the limits have no part in
    what is decided here. -/
structure Profile where
  state : ProfileState
  mode : Mode
  error : String
  deliveryEpoch : Nat
  revision : Nat

/-- `accounts.State`, with the harness of each binding: a binding always names the central profile
    of its harness. -/
structure State where
  profile : Profile
  credentialVersion : Nat
  bindings : GoMap String Harness

variable {Secret : Type}

/-! ## The two calls -/

def Mode.orSubscription : Mode → Mode
  | .unset => .subscription
  | m => m

def mismatch (c : Credential Secret) (m : Mode) : Bool :=
  decide (c.kind = .claudeAPIKey) != decide (m = .api)

/-- The state and the error that `accountSnapshot` reads off what `Load` returned. A credential is
    taken to have a token: the branch for an empty one is left out. -/
def sight (m : Mode) : Except LoadError (Credential Secret) → ProfileState × String
  | .error .notConfigured => (.unconfigured, "")
  | .error _ => (.blocked, "credential_unavailable")
  | .ok c => if mismatch c m then (.blocked, "credential_mode_mismatch") else (.ready, "")

def observe (p : Profile) (record : Except LoadError (Credential Secret)) : Profile :=
  if p.state.closed then p
  else
    let m := p.mode.orSubscription
    { p with mode := m, state := (sight m record).1, error := (sight m record).2 }

/-- `accountSnapshot`: the observation is published if the profile has not moved meanwhile. Returns
    the profile that is reported. -/
def accountSnapshot (s : State) (record : Except LoadError (Credential Secret)) : Profile × State :=
  let p := observe s.profile record
  let s := if s.profile.deliveryEpoch = p.deliveryEpoch ∧ s.profile.revision = p.revision then
      { s with profile := p }
    else s
  (s.profile, s)

inductive Refusal
  | insecureStore | blocked

def State.bind (s : State) (session : String) (h : Harness)
    (record : Except LoadError (Credential Secret)) : Except Refusal State :=
  let bound (s : State) : Except Refusal State :=
    match s.bindings.lookup session with
    | some h' => if h' ≠ h then .error .blocked else .ok s
    | none => .ok { s with bindings := s.bindings.insert session h }
  if h = .claude ∧ s.credentialVersion = 0 then
    match record with
    | .ok c => bound { s with credentialVersion := c.generation }
    | .error .insecureStore => .error .insecureStore
    | .error _ => bound s
  else bound s

/-- `Delivery` for a Claude session: the profile it is made from, or the refusal. -/
def delivery (s : State) (session : String) (record : Except LoadError (Credential Secret)) :
    Except Refusal Profile × State :=
  match s.bind session .claude record with
  | .error e => (.error e, s)
  | .ok s => (if s.profile.state.closed then .error .blocked else .ok s.profile, s)

/-- A call, with what the record is when it is made. -/
inductive Call (Secret : Type)
  | status (record : Except LoadError (Credential Secret))
  | deliver (session : String) (record : Except LoadError (Credential Secret))

def step (s : State) : Call Secret → Option State
  | .status record => some (accountSnapshot s record).2
  | .deliver session record => some (delivery s session record).2

/-! ## When the profile recovers -/

/-- A read that finds this blocks the profile. -/
def blocks (m : Mode) : Except LoadError (Credential Secret) → Bool
  | .ok c => mismatch c m
  | .error .notConfigured => false
  | .error _ => true

variable {s t : State} {session : String} {record : Except LoadError (Credential Secret)}

@[simp] theorem accountSnapshot_profile :
    (accountSnapshot s record).2.profile = observe s.profile record := by
  have hfixed : s.profile.deliveryEpoch = (observe s.profile record).deliveryEpoch ∧
      s.profile.revision = (observe s.profile record).revision := by
    simp only [observe]
    split_ifs <;> exact ⟨rfl, rfl⟩
  simp only [accountSnapshot, if_pos hfixed]

theorem accountSnapshot_bindings : (accountSnapshot s record).2.bindings = s.bindings := by
  simp only [accountSnapshot]
  split_ifs <;> rfl

theorem bind_profile {h : Harness} (hb : s.bind session h record = .ok t) :
    t.profile = s.profile := by
  simp only [State.bind] at hb
  repeat' split at hb
  all_goals
    cases hb
    try rfl

@[simp] theorem delivery_profile : (delivery s session record).2.profile = s.profile := by
  rw [delivery]
  split
  · rfl
  next hb => exact bind_profile hb

theorem sight_closed (m : Mode) : (sight m record).1.closed = blocks m record := by
  cases record with
  | error e => cases e <;> rfl
  | ok c =>
    rw [sight, blocks]
    split
    next hc => rw [hc]; rfl
    next hc => rw [Bool.eq_false_iff.mpr hc]; rfl

@[simp] theorem Mode.orSubscription_idem (m : Mode) :
    m.orSubscription.orSubscription = m.orSubscription := by
  cases m <;> rfl

theorem observe_open {p : Profile} (h : p.state.closed = false)
    (record : Except LoadError (Credential Secret)) :
    (observe p record).state.closed = blocks p.mode.orSubscription record ∧
      (observe p record).mode.orSubscription = p.mode.orSubscription := by
  simp [observe, h, sight_closed]

theorem step_closed {c : Call Secret} (h : s.profile.state.closed = true)
    (hstep : step s c = some t) : t.profile.state.closed = true := by
  cases c with
  | deliver session record =>
    cases hstep
    rwa [delivery_profile]
  | status record =>
    cases hstep
    rwa [accountSnapshot_profile, observe, if_pos h]

theorem exec_open_iff {cs : List (Call Secret)} (hopen : s.profile.state.closed = false)
    (hrun : exec step s cs = some t) : (t.profile.state.closed = false ↔
      ∀ record, .status record ∈ cs → blocks s.profile.mode.orSubscription record = false) ∧
    (t.profile.state.closed = false →
      t.profile.mode.orSubscription = s.profile.mode.orSubscription) := by
  induction cs generalizing s with
  | nil =>
    cases hrun
    simp [hopen]
  | cons c cs ih =>
    obtain ⟨m, hm, hrest⟩ := exec_cons_eq_some.mp hrun
    cases c with
    | deliver session record =>
      cases hm
      simpa using ih (by simpa using hopen) hrest
    | status record =>
      cases hm
      obtain ⟨hclosed, hmode⟩ := observe_open hopen record
      cases hb : blocks s.profile.mode.orSubscription record with
      | false =>
        simpa [hmode, hb] using ih (by simpa [hb] using hclosed) hrest
      | true =>
        have ht : t.profile.state.closed = true :=
          exec_invariant (fun s => s.profile.state.closed = true) (fun _ _ _ => step_closed)
            (by simpa [hb] using hclosed) hrest
        simp [ht, hb]

theorem bind_ok {c : Credential Secret} (h : s.bindings.lookup session ≠ some .codex) :
    ∃ t, s.bind session .claude (.ok c) = .ok t := by
  cases hl : s.bindings.lookup session with
  | none => simp [State.bind, hl, ← apply_ite Except.ok]
  | some b =>
    cases b with
    | claude => simp [State.bind, hl, ← apply_ite Except.ok]
    | codex => exact absurd hl h

/-- **Failing closed ends with its cause, unless a status read saw the cause.** After any sequence
    of status reads and deliveries from a profile that is ready or not configured, with the record
    usable and of the profile's kind: the next status read reports the profile ready and a delivery
    admits it exactly if no status read of the sequence found the record unusable or of the other
    kind. -/
theorem recovers_iff {cs : List (Call Secret)} (hopen : s.profile.state.closed = false)
    (hrun : exec step s cs = some t) (c : Credential Secret)
    (hc : mismatch c s.profile.mode.orSubscription = false)
    (hbound : t.bindings.lookup session ≠ some .codex) :
    ((accountSnapshot t (.ok c)).1.state = .ready ∧
      (delivery (accountSnapshot t (.ok c)).2 session (.ok c)).1 =
        .ok (accountSnapshot t (.ok c)).1) ↔
    ∀ record, .status record ∈ cs → blocks s.profile.mode.orSubscription record = false := by
  obtain ⟨hiff, hmode⟩ := exec_open_iff hopen hrun
  rw [← hiff]
  have hreport : (accountSnapshot t (.ok c)).1 = observe t.profile (.ok c) :=
    accountSnapshot_profile
  rw [hreport]
  constructor
  · rintro ⟨hready, -⟩
    by_contra hclosed
    rw [observe, if_pos (by simpa using hclosed)] at hready
    simp [hready, ProfileState.closed] at hclosed
  intro ht
  have hstate : (observe t.profile (.ok c)).state = .ready := by
    simp [observe, ht, hmode ht, sight, hc]
  have hbound' : (accountSnapshot t (.ok c)).2.bindings.lookup session ≠ some .codex := by
    rwa [accountSnapshot_bindings]
  obtain ⟨t', ht'⟩ := bind_ok (c := c) hbound'
  refine ⟨hstate, ?_⟩
  rw [delivery, ht']
  simp [bind_profile ht', hstate, ProfileState.closed]

/-- The account after a subscription login, and what the login stored. -/
def signedIn : State := ⟨⟨.ready, .subscription, "", 2, 3⟩, 1, ∅⟩

def setupToken : Credential String := ⟨.claudeOAuthToken, "token", 1⟩

theorem recovers_from_absence :
    ∃ t, exec step signedIn ([.status (.error .notConfigured), .deliver "w" (.error .unreadable),
        .status (.error .notConfigured)] : List (Call String)) = some t ∧
      (accountSnapshot t (.ok setupToken)).1.state = .ready ∧
      (delivery (accountSnapshot t (.ok setupToken)).2 "w" (.ok setupToken)).1 =
        .ok (accountSnapshot t (.ok setupToken)).1 := by
  refine reaches_imp (P := fun t => t.bindings.lookup "w" ≠ some .codex) (by decide +kernel) ?_
  intro t ht hbound
  exact (recovers_iff rfl ht setupToken rfl hbound).mpr (by simp [blocks])

/-- The store is insecure during one status read; with its permissions fixed the profile is still
    reported blocked, and no delivery is made. -/
theorem stays_blocked_after_repair :
    ∃ t, exec step signedIn ([.status (.error .insecureStore)] : List (Call String)) = some t ∧
      (accountSnapshot t (.ok setupToken)).1.state = .blocked ∧
      (delivery (accountSnapshot t (.ok setupToken)).2 "w" (.ok setupToken)).1 = .error .blocked :=
  ⟨_, rfl, rfl, rfl⟩

end AgentMultiplexer.Accounts
