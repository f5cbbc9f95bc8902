import AgentMultiplexer.SessionRpc.Mailbox

set_option autoImplicit false

/-! # What a section of the mailbox can change

The invariants of the mailbox are about few of its fields each. This module says once, for a section
of `processClaimed`, what it leaves alone and where a new value comes from; the invariants are
derived from that without opening the machine again. -/

namespace AgentMultiplexer.SessionRpc

open GoMap Access ClientState

/-- The request a phase works on, from the moment its file was read to the answer. -/
def Phase.request : Phase → Option SignedRequest
  | .reserved env _ | .leasing env _ _ | .appending env _ _ | .checking env _ _ _ _ => some env
  | .start | .publishing _ _ | .unlinking => none

/-- The request of a client that has signed one. -/
def ClientState.request : ClientState → Option SignedRequest
  | .idle => none
  | .signed env | .waiting env _ _ | .returned env _ => some env

namespace MailboxState

variable {crypto : Crypto} {codec : Codec} {s s' : MailboxState} {job : Job} {next : Option Job}

/-! ## Clients -/

theorem written_cases (env : SignedRequest) (result : WriteResult) :
    written env result = .waiting env false .read ∨
      written env result = .returned env .indeterminate := by
  cases result with
  | ok => exact .inl rfl
  | eexist | failed => exact .inr rfl

theorem written_request (env : SignedRequest) (result : WriteResult) :
    (written env result).request = some env := by
  rcases written_cases env result with h | h <;> rw [h] <;> rfl

@[simp] theorem setClient_self (j : Nat) (c : ClientState) : (s.setClient j c).clients j = c :=
  Function.update_self ..

theorem setClient_of_ne {i j : Nat} (h : i ≠ j) (c : ClientState) :
    (s.setClient j c).clients i = s.clients i :=
  Function.update_of_ne h ..

/-! ## Phases -/

theorem refuse_request (env : SignedRequest) (answer : Answer) (status : Status) (code : String)
    (branch : Branch) : (s.refuse crypto env answer status code branch).request = none := by
  cases answer <;> rfl

variable {p : Principal} {answer : Answer}

theorem checkCall_request {env env' : SignedRequest}
    (h : (s.checkCall crypto codec env answer p).request = some env') : env' = env := by
  unfold checkCall at h
  split at h
  · rw [refuse_request] at h
    cases h
  split at h
  · rw [refuse_request] at h
    cases h
  · split at h
    · rw [refuse_request] at h
      cases h
    · exact (Option.some.inj h).symm

variable {phase : Phase}

theorem nextCheck_request {env env' : SignedRequest} {call : Call}
    {authorized : Bool} {check : Check}
    (h : s.nextCheck crypto env answer p call authorized check = some phase)
    (hreq : phase.request = some env') : env' = env := by
  have hrefuse : ∀ {status code branch},
      some (s.refuse crypto env answer status code branch) = some phase → env' = env := by
    intro status code branch heq
    rw [← Option.some.inj heq, refuse_request] at hreq
    cases hreq
  have hgo : ∀ {c}, some (.checking env answer p call c) = some phase → env' = env := by
    intro c heq
    rw [← Option.some.inj heq] at hreq
    exact (Option.some.inj hreq).symm
  cases check with
  | valid | recheck =>
    simp only [nextCheck] at h
    split at h
    · exact hgo h
    · exact hrefuse h
  | authorize =>
    simp only [nextCheck] at h
    split at h
    · cases h
    split at h
    · exact hgo h
    · exact hrefuse h
  | execute => cases h

theorem verifyDecide_bootID (crypto : Crypto) (a : LedgerState) (env : SignedRequest) (now : Int) :
    (verifyDecide crypto a env now).1.bootID = a.bootID := by
  unfold verifyDecide
  split <;> rfl

variable {env : SignedRequest}

theorem claimedEnvelope_spec {id : String} (h : s.claimedEnvelope id = some env) :
    s.processing.lookup id = some (some env) ∧ env.requestID = id := by
  unfold claimedEnvelope at h
  split at h
  · next env' hlook =>
    split_ifs at h with hok
    cases h
    exact ⟨hlook, hok.1⟩
  · cases h

/-! ## Files -/

theorem atomicWriteAt_lookup {β : Type} {dir : GoMap String β} {id id' : String} {data v : β}
    {outcome : WriteOutcome} (h : (atomicWriteAt dir id data outcome).1.lookup id' = some v) :
    dir.lookup id' = some v ∨ (id' = id ∧ v = data ∧ outcome ≠ .failed ∧ id ∉ dir) := by
  have hcases : (atomicWriteAt dir id data outcome).1 = dir ∨
      (outcome ≠ .failed ∧ id ∉ dir ∧ (atomicWriteAt dir id data outcome).1 =
        dir.insert id data) := by
    by_cases hfree : id ∈ dir
    · cases outcome <;> simp [atomicWriteAt, hfree]
    · cases outcome <;> simp [atomicWriteAt, hfree]
  rcases hcases with heq | ⟨hout, hfree, heq⟩
  · exact .inl (heq ▸ h)
  rw [heq] at h
  rcases lookup_insert_eq_some.mp h with ⟨hid, rfl⟩ | ⟨-, h⟩
  · exact .inr ⟨hid, rfl, hout, hfree⟩
  · exact .inl h

/-! ## Jobs -/

/-- What a section of a job leaves alone, and where what is new comes from. -/
structure JobFrame (s : MailboxState) (job : Job) (s' : MailboxState) (next : Option Job) :
    Prop where
  rest : s' = { s with
    authority := s'.authority
    processing := s'.processing
    responses := s'.responses
    dispatched := s'.dispatched
    published := s'.published }
  boot : s'.authority.bootID = s.authority.bootID
  processing : ∀ id file, s'.processing.lookup id = some file → s.processing.lookup id = some file
  dispatched : ∀ env ∈ s'.dispatched, env ∈ s.dispatched ∨
    ∃ answer p call, job.phase = .checking env answer p call .execute
  published : ∀ r ∈ s'.published, r ∈ s.published ∨ job.phase = .publishing .respond r
  responses : ∀ id r, s'.responses.lookup id = some r →
    s.responses.lookup id = some r ∨ r ∈ s'.published
  kept : s.published ⊆ s'.published
  next : ∀ job', next = some job' → job'.id = job.id ∧
    ∀ env, job'.phase.request = some env →
      job.phase.request = some env ∨ s.claimedEnvelope job.id = some env

/-- The lanes hold the next job and old ones. -/
def OnLanes (s : MailboxState) (next fast slow : Option Job) : Prop :=
  ∀ job, fast = some job ∨ slow = some job →
    next = some job ∨ s.fast = some job ∨ s.slow = some job

theorem JobFrame.onLanes_fast (h : JobFrame s job s' next) : s.OnLanes next next s'.slow := by
  intro job' hjob'
  rw [h.rest] at hjob'
  exact hjob'.imp_right .inr

theorem JobFrame.onLanes_slow (h : JobFrame s job s' next) : s.OnLanes next s'.fast next := by
  intro job' hjob'
  rw [h.rest] at hjob'
  exact hjob'.symm.imp_right .inl

theorem JobFrame.done : JobFrame s job s none :=
  ⟨rfl, rfl, fun _ _ h => h, fun _ h => .inl h, fun _ h => .inl h, fun _ _ h => .inl h,
    fun _ h => h, fun _ h => nomatch h⟩

/-- The job moves on, and nothing but the authority has changed. -/
theorem JobFrame.enter {authority : LedgerState} (hboot : authority.bootID = s.authority.bootID)
    (hphase : ∀ env, phase.request = some env →
      job.phase.request = some env ∨ s.claimedEnvelope job.id = some env) :
    JobFrame s job { s with authority := authority } (some (job.enter phase)) where
  rest := rfl
  boot := hboot
  processing _ _ h := h
  dispatched _ h := .inl h
  published _ h := .inl h
  responses _ _ h := .inl h
  kept _ h := h
  next job' h := by
    cases h
    exact ⟨rfl, hphase⟩

theorem JobFrame.refuse {authority : LedgerState}
    {status : Status} {code : String} {branch : Branch}
    (hboot : authority.bootID = s.authority.bootID) :
    JobFrame s job { s with authority := authority }
      (some (job.enter (s.refuse crypto env answer status code branch))) :=
  .enter hboot fun env' h => by
    rw [refuse_request] at h
    cases h

theorem JobFrame.publish {r : Response} {outcome : WriteOutcome}
    (hphase : job.phase = .publishing .respond r)
    (hnext : ∀ job', next = some job' → job' = job.enter .unlinking) :
    JobFrame s job (s.publishResponse r outcome).1 next where
  rest := rfl
  boot := rfl
  processing _ _ h := h
  dispatched _ h := .inl h
  published r' h := by
    simp only [publishResponse] at h
    split at h
    · exact .inl h
    rcases List.mem_cons.mp h with rfl | h
    · exact .inr hphase
    · exact .inl h
  responses id r' h := by
    rcases atomicWriteAt_lookup h with hold | ⟨rfl, rfl, hout, hfree⟩
    · exact .inl hold
    refine .inr ?_
    simp only [publishResponse, hout, hfree, or_self, if_false]
    exact List.mem_cons_self
  kept r' h := by
    simp only [publishResponse]
    split
    · exact h
    · exact List.mem_cons_of_mem _ h
  next job' h := by
    rw [hnext job' h]
    exact ⟨rfl, fun _ h => nomatch h⟩

/-- The call is executed: it is dispatched at most. -/
theorem JobFrame.execute {call : Call} {execution : Execution}
    (hphase : job.phase = .checking env answer p call .execute)
    (h : s.executeCall crypto env answer call execution = some (s', phase)) :
    JobFrame s job s' (some (job.enter phase)) := by
  cases execution with simp only [executeCall] at h
  | receipt status code =>
    split_ifs at h
    cases h
    exact .enter rfl fun _ h => nomatch h
  | full =>
    split_ifs at h
    cases h
    exact .enter rfl fun _ h => nomatch h
  | dispatch result =>
    split_ifs at h
    cases h
    refine ⟨rfl, rfl, fun _ _ h => h, fun env' hmem => ?_, fun _ h => .inl h,
      fun _ _ h => .inl h, fun _ h => h, fun job' h => ?_⟩
    · rcases List.mem_cons.mp hmem with rfl | hmem
      · exact .inr ⟨answer, p, call, hphase⟩
      · exact .inl hmem
    · cases h
      exact ⟨rfl, fun _ h => nomatch h⟩

theorem jobStep_frame {e : JobEvent} (h : s.jobStep crypto codec job e = some (s', next)) :
    JobFrame s job s' next := by
  revert h
  fun_cases jobStep with
  | case1 | case24 =>
    rintro ⟨⟩
    exact .enter rfl fun _ h => nomatch h
  | case2 | case27 =>
    rintro ⟨⟩
    exact .done
  | case3 _ _ env henv =>
    rintro ⟨⟩
    exact .enter rfl fun _ h => .inr (henv.trans h)
  | case5 | case12 =>
    rintro ⟨⟩
    exact .refuse rfl
  | case6 env answer hphase =>
    rintro ⟨⟩
    exact .enter rfl fun _ h => .inl (by rw [hphase]; exact h)
  | case8 env answer now hphase authority err hdec =>
    rintro ⟨⟩
    have hboot := verifyDecide_bootID crypto s.authority env now
    rw [hdec] at hboot
    exact .refuse hboot
  | case9 env answer now hphase authority p hdec =>
    rintro ⟨⟩
    have hboot := verifyDecide_bootID crypto s.authority env now
    rw [hdec] at hboot
    exact .enter hboot fun _ h => .inl (by rw [hphase]; exact h)
  | case11 env answer p hphase =>
    rintro ⟨⟩
    refine .enter rfl fun env' h => .inl ?_
    rw [hphase, checkCall_request h]
    rfl
  | case15 _ env answer p call check hphase phase hcheck =>
    rintro ⟨⟩
    refine .enter rfl fun env' h => .inl ?_
    rw [hphase, nextCheck_request hcheck h]
    rfl
  | case18 _ env answer p call hphase s'' phase hexec =>
    rintro ⟨⟩
    exact .execute hphase hexec
  | case20 =>
    rintro ⟨⟩
    have hentered : JobFrame s job s (some (job.enter .unlinking)) :=
      .enter rfl fun _ h => nomatch h
    unfold retireResponse
    split
    · exact hentered
    split
    · exact { hentered with rest := rfl, responses := fun _ _ h => .inl (lookup_of_erase h) }
    · exact hentered
  | case22 outcome r hphase s'' hpub =>
    rintro ⟨⟩
    have hframe : JobFrame s job (s.publishResponse r outcome).1 none :=
      .publish hphase fun _ h => nomatch h
    rwa [hpub] at hframe
  | case23 outcome r hphase s'' result _ hpub =>
    rintro ⟨⟩
    have hframe : JobFrame s job (s.publishResponse r outcome).1 (some (job.enter .unlinking)) :=
      JobFrame.publish hphase fun _ h => (Option.some.inj h).symm
    rwa [hpub] at hframe
  | case26 =>
    rintro ⟨⟩
    have hdone : JobFrame s job s none := .done
    exact { hdone with rest := rfl, processing := fun _ _ h => lookup_of_erase h }
  | _ => rintro ⟨⟩

/-! ## Calls of `Do` -/

/-- What a section of client `j` leaves alone, and where what is new comes from. -/
structure ClientFrame (crypto : Crypto) (s : MailboxState) (j : Nat) (t : MailboxState) :
    Prop where
  rest : t = { s with
    requests := t.requests
    clients := Function.update s.clients j (t.clients j)
    signedIDs := t.signedIDs }
  running : ∀ env outcome, s.clients j ≠ .returned env outcome
  requests : ∀ id file, t.requests.lookup id = some file → s.requests.lookup id = some file ∨
    ∃ env, s.clients j = .signed env ∧ id = env.requestID ∧ file = some env
  request : ∀ env, (t.clients j).request = some env → (s.clients j).request = some env ∨
    (env.requestID ∉ s.signedIDs ∧ env.requestID ∉ s.foreignIDs)
  read : ∀ env r, t.clients j = .returned env (.response r) →
    s.readResponse crypto env = .ok (some r)

section Client

variable {j : Nat} {env : SignedRequest} {t : MailboxState}

theorem ClientFrame.other {i : Nat} (h : ClientFrame crypto s j t) (hi : i ≠ j) :
    t.clients i = s.clients i := by
  rw [h.rest]
  exact Function.update_of_ne hi ..

/-- The client goes on with its request, and files may only have been removed. -/
theorem ClientFrame.move {requests : GoMap String File} {c : ClientState}
    (hreq : (s.clients j).request = some env)
    (hrunning : ∀ env outcome, s.clients j ≠ .returned env outcome)
    (hfiles : ∀ id file, requests.lookup id = some file → s.requests.lookup id = some file ∨
      (s.clients j = .signed env ∧ id = env.requestID ∧ file = some env))
    (hc : c.request = some env)
    (hread : ∀ r, c = .returned env (.response r) → s.readResponse crypto env = .ok (some r)) :
    ClientFrame crypto s j ({ s with requests := requests }.setClient j c) where
  rest := by rw [setClient_self]; rfl
  running := hrunning
  requests id file h := (hfiles id file h).imp_right fun h => ⟨env, h⟩
  request env' h := by
    rw [setClient_self] at h
    exact .inl (hreq.trans (hc.symm.trans h))
  read env' r h := by
    rw [setClient_self] at h
    obtain rfl : env = env' := Option.mem_unique hc (by rw [h]; rfl)
    exact hread r h

theorem ClientFrame.withdraw {claimed removable : Bool} {next : ClientState}
    (hreq : (s.clients j).request = some env)
    (hrunning : ∀ env outcome, s.clients j ≠ .returned env outcome)
    (hnext : next.request = some env) (hread : ∀ r, next ≠ .returned env (.response r)) :
    ClientFrame crypto s j (s.withdraw j env claimed removable next) := by
  unfold MailboxState.withdraw
  split
  · exact .move hreq hrunning (fun _ _ h => .inl (lookup_of_erase h)) rfl fun _ h => nomatch h
  · exact .move hreq hrunning (fun _ _ h => .inl h) hnext fun r h => absurd h (hread r)

theorem clientStep_frame {e : ClientEvent} (h : s.clientStep crypto codec j e = some t) :
    ClientFrame crypto s j t := by
  -- a client that waits goes on, or returns
  have hgo : ∀ {env claimed next c}, s.clients j = .waiting env claimed next →
      c.request = some env →
      (∀ r, c = .returned env (.response r) → s.readResponse crypto env = .ok (some r)) →
      ClientFrame crypto s j (s.setClient j c) := fun hwait hc hread =>
    ClientFrame.move (by rw [hwait]; rfl) (fun _ _ h => nomatch hwait.symm.trans h)
      (fun _ _ h => .inl h) hc hread
  revert h
  fun_cases clientStep with
  | case1 call env hidle =>
    intro h
    rw [signRequest] at h
    split_ifs at h with hguard
    obtain ⟨-, -, -, -, hfresh, hforeign⟩ := hguard
    cases h
    have hself : (s.setClient j (.signed env)).clients j = .signed env := setClient_self j _
    refine ⟨?_, (fun _ _ h => nomatch hidle.symm.trans h), fun _ _ h => .inl h, ?_, ?_⟩
    · simp only [hself]
      rfl
    · intro env' h
      have heq : some env = some env' := by
        rw [← h]
        exact congrArg request hself.symm
      exact .inr (Option.some.inj heq ▸ ⟨hfresh, hforeign⟩)
    · intro env' r h
      cases hself.symm.trans h
  | case3 outcome env hsigned =>
    rintro ⟨⟩
    have hreq : (s.clients j).request = some env := by rw [hsigned]; rfl
    refine ClientFrame.move hreq (fun _ _ h => nomatch hsigned.symm.trans h)
      (fun id file h => ?_) (written_request env _) fun r h => ?_
    · rcases atomicWriteAt_lookup h with hold | ⟨hid, hfile, -⟩
      · exact .inl hold
      · exact .inr ⟨hsigned, hid, hfile⟩
    · rcases written_cases env (atomicWriteAt s.requests env.requestID (some env) outcome).2
        with hc | hc <;> cases hc.symm.trans h
  | case6 env claimed hwait r hread | case8 env claimed hwait r hread =>
    rintro ⟨⟩
    exact hgo hwait rfl fun r' h => by cases h; exact hread
  | case5 env claimed hwait | case7 env claimed hwait | case9 env claimed hwait
  | case11 _ env claimed hwait | case12 _ env claimed hwait | case17 env claimed hwait =>
    rintro ⟨⟩
    exact hgo hwait rfl fun _ h => nomatch h
  | case14 _ _ env hwait | case19 _ env claimed hwait =>
    rintro ⟨⟩
    exact .withdraw (by rw [hwait]; rfl) (fun _ _ h => nomatch hwait.symm.trans h) rfl
      fun _ h => nomatch h
  | _ => rintro ⟨⟩

end Client

/-! ## All sections -/

/-- What everything else leaves alone: the clients, the dispatches and the publications stay, a job
    on a lane is new or untouched, and files move from `requests/` to `processing/` only. -/
structure Quiet (s t : MailboxState) : Prop where
  clients : t.clients = s.clients
  dispatched : t.dispatched = s.dispatched
  published : t.published = s.published
  boot : t.authority.bootID = s.authority.bootID ∨ (t.fast = none ∧ t.slow = none)
  fast : ∀ job, t.fast = some job → s.fast = some job ∨ job.phase = .start
  slow : ∀ job, t.slow = some job → s.slow = some job ∨ job.phase = .start
  requests : ∀ id file, t.requests.lookup id = some file →
    s.requests.lookup id = some file ∨ id ∉ s.signedIDs
  processing : ∀ id file, t.processing.lookup id = some file →
    s.processing.lookup id = some file ∨ s.requests.lookup id = some file
  responses : ∀ id r, t.responses.lookup id = some r → s.responses.lookup id = some r

section Quiet

variable {t : MailboxState}

theorem Quiet.refl (s : MailboxState) : Quiet s s where
  clients := rfl
  dispatched := rfl
  published := rfl
  boot := .inl rfl
  fast _ h := .inl h
  slow _ h := .inl h
  requests _ _ h := .inl h
  processing _ _ h := .inl h
  responses _ _ h := h

theorem Quiet.eraseRequest (s : MailboxState) (id : String) :
    Quiet s { s with requests := s.requests.erase id } :=
  { Quiet.refl s with requests := fun _ _ h => .inl (lookup_of_erase h) }

theorem Quiet.claim (s : MailboxState) (id : String) : Quiet s (s.claim id) := by
  unfold MailboxState.claim
  split
  · exact .refl s
  next file hfile =>
  split
  · exact .eraseRequest s id
  refine { Quiet.eraseRequest s id with processing := fun id' file' h => ?_ }
  rw [lookup_insert_ite] at h
  split at h
  · next hid => exact .inr (hid ▸ h ▸ hfile)
  · exact .inl h

theorem Quiet.dropExpired (s : MailboxState) (id : String) : Quiet s (s.dropExpired id) := by
  unfold MailboxState.dropExpired
  split
  · split
    · exact .eraseRequest s id
    · exact .refl s
  · exact .refl s

theorem Quiet.processOrDefer {id : String} {admits laneFull : Bool}
    (h : s.processOrDefer codec id admits laneFull = some t) : Quiet s t := by
  revert h
  fun_cases s.processOrDefer codec id admits laneFull with
  | case1 => rintro ⟨⟩
  | case2 | case3 =>
    rintro ⟨⟩
    exact .refl s
  | case4 =>
    rintro ⟨⟩
    exact { Quiet.refl s with }
  | case5 =>
    rintro ⟨⟩
    exact { Quiet.refl s with
      boot := .inl rfl
      fast := fun job h => .inr (by cases h; rfl) }

theorem Quiet.takeSlow (h : s.takeSlow = some t) : Quiet s t := by
  revert h
  fun_cases MailboxState.takeSlow s with
  | case1 =>
    rintro ⟨⟩
    exact { Quiet.refl s with
      boot := .inl rfl
      slow := fun job h => .inr (by cases h; rfl) }
  | case2 => rintro ⟨⟩

theorem ledgerStep_bootID {a b : LedgerState} {e : LedgerEvent} (h : a.step crypto e = some b) :
    b.bootID = a.bootID := by
  cases e with
  | tick | publish | close =>
    cases h
    rfl
  | decide i =>
    simp only [LedgerState.step, LedgerState.decided] at h
    split at h
    · cases h
      split <;> rfl
    · cases h
  | rotate =>
    simp only [LedgerState.step] at h
    split at h <;> cases h
    rfl
  | begin | append | compacted =>
    simp only [LedgerState.step] at h
    split at h
    · first
        | cases h
        | split at h <;> cases h <;> rfl
    · first
        | cases h
        | split at h <;> cases h <;> rfl

end Quiet

/-- **Sections of the mailbox.** Every section is one of a client, one of a job on one of the lanes,
    or quiet. -/
theorem step_cases {t : MailboxState} {e : MailboxEvent} (h : s.step crypto codec e = some t) :
    (∃ j, ClientFrame crypto s j t) ∨ (∃ job ev s' next, e = .fast ev ∧ s.fast = some job ∧
      s.jobStep crypto codec job ev = some (s', next) ∧ t = { s' with fast := next }) ∨
    (∃ job ev s' next, e = .slow ev ∧ s.slow = some job ∧
      s.jobStep crypto codec job ev = some (s', next) ∧ t = s'.setSlow job.id next) ∨
    Quiet s t := by
  revert h
  fun_cases s.step crypto codec e with
  | case2 ev authority hledger =>
    rintro ⟨⟩
    exact .inr (.inr (.inr { Quiet.refl s with boot := .inl (ledgerStep_bootID hledger) }))
  | case3 | case19 =>
    rintro ⟨⟩
    exact .inr (.inr (.inr { Quiet.refl s with }))
  | case4 j ev => exact fun h => .inl ⟨j, clientStep_frame h⟩
  | case5 id file hid =>
    rintro ⟨⟩
    refine .inr (.inr (.inr { Quiet.refl s with requests := fun id' file' h => ?_ }))
    rw [lookup_insert_ite] at h
    split at h
    · next heq => exact .inr (heq ▸ hid)
    · exact .inl h
  | case7 id =>
    rintro ⟨⟩
    exact .inr (.inr (.inr (.claim s id)))
  | case8 id =>
    rintro ⟨⟩
    exact .inr (.inr (.inr (.dropExpired s id)))
  | case9 id =>
    rintro ⟨⟩
    exact .inr (.inr (.inr (.eraseRequest s id)))
  | case10 => exact fun h => .inr (.inr (.inr (.processOrDefer h)))
  | case11 => exact fun h => .inr (.inr (.inr (.takeSlow h)))
  | case14 ev job hjob s' next hsection =>
    rintro ⟨⟩
    exact .inr (.inl ⟨job, ev, s', next, rfl, hjob, hsection, rfl⟩)
  | case17 ev job hjob s' next hsection =>
    rintro ⟨⟩
    exact .inr (.inr (.inl ⟨job, ev, s', next, rfl, hjob, hsection, rfl⟩))
  | case18 =>
    rintro ⟨⟩
    exact .inr (.inr (.inr { Quiet.refl s with responses := fun _ _ h => lookup_of_erase h }))
  | case21 =>
    rintro ⟨⟩
    exact .inr (.inr (.inr { Quiet.refl s with
      boot := .inr ⟨rfl, rfl⟩
      fast := fun _ h => nomatch h
      slow := fun _ h => nomatch h }))
  | _ => rintro ⟨⟩

end MailboxState

end AgentMultiplexer.SessionRpc
