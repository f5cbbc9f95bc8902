import AgentMultiplexer.Theory.Transition
import AgentMultiplexer.SessionRpc.Sections

set_option autoImplicit false

/-! # Withdrawal is final

A client that unlinks its request file has proof that the request never ran. The file is under one
name in `requests/` and the only way out of there that leads to a dispatch is the rename into
`processing/`. So a request that is still in `requests/` was never claimed, and once the client has
removed it nothing can claim it: its id is written by its own `Do` only, and only once.

The invariant follows each request id through these places: the ids that were ever claimed cover
everything the server works on and everything it dispatched, and a request of `Do` is unclaimed
before its publication, while it lies in `requests/`, and after its withdrawal. -/

namespace AgentMultiplexer.SessionRpc

open AList Access GoMap List Transition ClientState MailboxState

namespace MailboxState

/-- One of the lanes works on this request. -/
def Working (s : MailboxState) (env : SignedRequest) : Prop :=
  ∃ job, (s.fast = some job ∨ s.slow = some job) ∧ job.phase.request = some env

structure Tracked (s : MailboxState) : Prop where
  processing : ∀ id ∈ s.processing, id ∈ s.claimedIDs
  working : ∀ env, s.Working env → env.requestID ∈ s.claimedIDs
  dispatched : ∀ env ∈ s.dispatched, env.requestID ∈ s.claimedIDs
  /-- Somebody wrote every request there is or was. -/
  written : ∀ id, id ∈ s.requests ∨ id ∈ s.claimedIDs → id ∈ s.signedIDs ∨ id ∈ s.foreignIDs
  apart : ∀ id ∈ s.signedIDs, id ∉ s.foreignIDs
  unclaimed : ∀ id ∈ s.signedIDs, id ∈ s.requests → id ∉ s.claimedIDs
  known : ∀ j env, (s.clients j).request = some env → env.requestID ∈ s.signedIDs
  one : ∀ i j env env', (s.clients i).request = some env → (s.clients j).request = some env' →
    env.requestID = env'.requestID → i = j
  /-- Before its publication and after its withdrawal a request is nowhere. -/
  absent : ∀ j env, s.clients j = .signed env ∨ s.clients j = .returned env .notExecuted →
    env.requestID ∉ s.requests ∧ env.requestID ∉ s.claimedIDs

theorem tracked_blank (subjectID : String) (authority : LedgerState) :
    (blank subjectID authority).Tracked where
  processing _ h := absurd h (notMem_empty _)
  working _ h := by
    obtain ⟨job, hjob | hjob, -⟩ := h
    · cases hjob
    · cases hjob
  dispatched _ h := by cases h
  written _ h := by
    rcases h with h | h
    · exact absurd h (notMem_empty _)
    · cases h
  apart _ h := by cases h
  unclaimed _ h := by cases h
  known _ _ h := by cases h
  one _ _ _ _ h := by cases h
  absent _ _ h := by
    rcases h with h | h
    · cases h
    · cases h

variable {crypto : Crypto} {codec : Codec} {s t : MailboxState}

/-! ## Clients -/

section Clients

variable {j : Nat} {env : SignedRequest}

section

variable (h : s.Tracked)

include h

theorem Tracked.setClient {c : ClientState}
    (hold : (s.clients j).request = some env) (hnew : c.request = some env)
    (habsent : c = .signed env ∨ c = .returned env .notExecuted →
      env.requestID ∉ s.requests ∧ env.requestID ∉ s.claimedIDs) : (s.setClient j c).Tracked := by
  -- the requests of the clients are the same as before
  have hsame : ∀ i, ((s.setClient j c).clients i).request = (s.clients i).request := by
    intro i
    by_cases hi : i = j
    · rw [hi, setClient_self, hold, hnew]
    · rw [setClient_of_ne hi]
  refine { h with known := ?_, one := ?_, absent := ?_ }
  · intro i env' hi
    exact h.known i env' (hsame i ▸ hi)
  · intro i k env' env'' hi hk
    exact h.one i k env' env'' (hsame i ▸ hi) (hsame k ▸ hk)
  intro i env' hi
  by_cases hij : i = j
  · subst hij
    rw [setClient_self] at hi
    have henv : env' = env := by
      rcases hi with rfl | rfl
      · exact Option.some.inj hnew
      · exact Option.some.inj hnew
    subst henv
    exact habsent hi
  · rw [setClient_of_ne hij] at hi
    exact h.absent i env' hi

/-- The new id of a signed request is nowhere in the mailbox. -/
theorem Tracked.sign {call : Call}
    (hsign : s.signRequest codec j call env = some t) : t.Tracked := by
  unfold signRequest at hsign
  split_ifs at hsign with hguard
  obtain ⟨-, -, -, -, hfresh, hforeign⟩ := hguard
  cases hsign
  have hnowhere : env.requestID ∉ s.requests ∧ env.requestID ∉ s.claimedIDs := by
    rw [← not_or]
    exact fun hid => (h.written _ hid).elim hfresh hforeign
  -- every other client has another id
  have hclient : ∀ i env', ((s.setClient j (.signed env)).clients i).request = some env' →
      (i = j ∧ env' = env) ∨ (i ≠ j ∧ (s.clients i).request = some env') := by
    intro i env' hi
    by_cases hij : i = j
    · rw [hij, setClient_self] at hi
      exact .inl ⟨hij, (Option.some.inj hi).symm⟩
    · rw [setClient_of_ne hij] at hi
      exact .inr ⟨hij, hi⟩
  refine { h with written := ?_, apart := ?_, unclaimed := ?_, known := ?_, one := ?_,
                  absent := ?_ }
  · exact fun id hid => (h.written id hid).imp_left (mem_cons_of_mem _)
  · exact forall_mem_cons.mpr ⟨hforeign, h.apart⟩
  · exact forall_mem_cons.mpr ⟨fun _ => hnowhere.2, h.unclaimed⟩
  · intro i env' hi
    rcases hclient i env' hi with ⟨-, rfl⟩ | ⟨-, hi⟩
    · exact mem_cons_self
    · exact mem_cons_of_mem _ (h.known i env' hi)
  · intro i k env' env'' hi hk hid
    rcases hclient i env' hi with ⟨hij, rfl⟩ | ⟨-, hi'⟩
    · rcases hclient k env'' hk with ⟨hkj, -⟩ | ⟨-, hk'⟩
      · exact hij.trans hkj.symm
      · exact absurd (hid ▸ h.known k env'' hk') hfresh
    · rcases hclient k env'' hk with ⟨-, rfl⟩ | ⟨-, hk'⟩
      · exact absurd (hid ▸ h.known i env' hi') hfresh
      · exact h.one i k env' env'' hi' hk' hid
  · intro i env' hi
    have hi' : (s.setClient j (.signed env)).clients i = .signed env' ∨
        (s.setClient j (.signed env)).clients i = .returned env' .notExecuted := hi
    by_cases hij : i = j
    · have henv : env' = env := by simpa [hij, eq_comm] using hi'
      exact henv ▸ hnowhere
    · rw [setClient_of_ne hij] at hi'
      exact h.absent i env' hi'

/-- Files leave `requests/`, or a file of `Do` comes in that was never claimed. -/
theorem Tracked.setRequests {requests : GoMap String File}
    (hmem : ∀ id ∈ requests, id ∈ s.requests ∨ (id ∈ s.signedIDs ∧ id ∉ s.claimedIDs ∧
      ∀ i env', s.clients i = .signed env' ∨ s.clients i = .returned env' .notExecuted →
        env'.requestID ≠ id)) : { s with requests := requests }.Tracked := by
  refine { h with written := ?_, unclaimed := ?_, absent := ?_ }
  · intro id hid
    rcases hid with hid | hid
    · rcases hmem id hid with hold | ⟨hsigned, -⟩
      · exact h.written id (.inl hold)
      · exact .inl hsigned
    · exact h.written id (.inr hid)
  · intro id hsigned hid
    rcases hmem id hid with hold | ⟨-, hunclaimed, -⟩
    · exact h.unclaimed id hsigned hold
    · exact hunclaimed
  · intro i env' hi
    obtain ⟨hfree, hunclaimed⟩ := h.absent i env' hi
    refine ⟨fun hid => ?_, hunclaimed⟩
    rcases hmem _ hid with hold | ⟨-, -, hother⟩
    · exact hfree hold
    · exact hother i env' hi rfl

theorem Tracked.eraseRequest (id : String) : { s with requests := s.requests.erase id }.Tracked :=
  h.setRequests fun _ hid => .inl (mem_erase.mp hid).2

theorem Tracked.publishRequest (hsigned : s.clients j = .signed env)
    (outcome : WriteOutcome) : (s.publishRequest j env outcome).Tracked := by
  obtain ⟨-, hunclaimed⟩ := h.absent j env (.inl hsigned)
  have hreq : (s.clients j).request = some env := by
    rw [hsigned]
    rfl
  let c := ClientState.written env (atomicWriteAt s.requests env.requestID (some env) outcome).2
  have hc : c.request = some env ∧ c ≠ .signed env ∧ c ≠ .returned env .notExecuted := by
    refine ⟨written_request env _, ?_⟩
    rcases written_cases env (atomicWriteAt s.requests env.requestID (some env) outcome).2
      with hc | hc <;> simp [c, hc]
  -- the client leaves the state in which its request is absent, then the file appears
  have hmoved : (s.setClient j c).Tracked :=
    h.setClient hreq hc.1 fun habs => absurd habs (not_or.mpr hc.2)
  refine hmoved.setRequests fun id hid => ?_
  obtain ⟨file, hfile⟩ := mem_iff_lookup.mp hid
  rcases atomicWriteAt_lookup hfile with hold | ⟨rfl, -⟩
  · exact .inl (mem_of_lookup hold)
  refine .inr ⟨h.known j env hreq, hunclaimed, fun i env' hi hid => ?_⟩
  have hi' : ((s.setClient j c).clients i).request = some env' := by
    rcases hi with hi | hi <;> rw [hi] <;> rfl
  have hj : (s.setClient j c).clients j = c := setClient_self j c
  obtain rfl := hmoved.one i j env' env hi' (by rw [hj]; exact hc.1) hid
  rw [hj] at hi hi'
  cases hi'.symm.trans hc.1
  exact not_or.mpr hc.2 hi

/-- A client that removed its file knows that it was never claimed. -/
theorem Tracked.withdraw {claimed removable : Bool} {next : ClientState}
    (hreq : (s.clients j).request = some env)
    (hnext : next.request = some env ∧ next ≠ .signed env ∧ next ≠ .returned env .notExecuted) :
    (s.withdraw j env claimed removable next).Tracked := by
  unfold MailboxState.withdraw
  split
  · next hguard =>
    refine (h.eraseRequest env.requestID).setClient hreq rfl fun _ => ⟨?_, ?_⟩
    · exact fun hid => (mem_erase.mp hid).1 rfl
    · exact h.unclaimed _ (h.known j env hreq) hguard.2.1
  · exact h.setClient hreq hnext.1 fun habs => absurd habs (not_or.mpr hnext.2)

theorem Tracked.clientStep {e : ClientEvent}
    (hstep : s.clientStep crypto codec j e = some t) : t.Tracked := by
  -- a client that goes on with its request, or returns without having withdrawn it
  have hgo : ∀ {q env c}, s.clients j = q → q.request = some env →
      c.request = some env ∧ c ≠ .signed env ∧ c ≠ .returned env .notExecuted →
      (s.setClient j c).Tracked := by
    rintro q env c rfl hreq hc
    exact h.setClient hreq hc.1 fun habs => absurd habs (not_or.mpr hc.2)
  revert hstep
  fun_cases s.clientStep crypto codec j e with
  | case1 => exact h.sign
  | case3 outcome env hsigned =>
    rintro ⟨⟩
    exact h.publishRequest hsigned outcome
  | case5 _ _ hwait | case6 _ _ hwait | case7 _ _ hwait | case8 _ _ hwait | case9 _ _ hwait
  | case11 _ _ _ hwait | case12 _ _ _ hwait | case17 _ _ hwait =>
    rintro ⟨⟩
    exact hgo hwait rfl (by simp [request])
  | case14 _ _ _ hwait | case19 _ _ _ hwait =>
    rintro ⟨⟩
    exact h.withdraw (by rw [hwait]; rfl) (by simp [request])
  | _ => rintro ⟨⟩

end

end Clients

/-! ## The server -/

section

variable (h : s.Tracked)

include h

/-- Somebody else's file takes an id that no client has. -/
theorem Tracked.inject {id : String} {file : File} (hid : id ∉ s.signedIDs) :
    { s with requests := s.requests.insert id file, foreignIDs := id :: s.foreignIDs }.Tracked := by
  refine { h with written := ?_, apart := ?_, unclaimed := ?_, absent := ?_ }
  · intro id' hid'
    rcases hid' with hmem | hmem
    · rcases (mem_insert _).mp hmem with rfl | hmem
      · exact .inr mem_cons_self
      · exact (h.written id' (.inl hmem)).imp_right (mem_cons_of_mem _)
    · exact (h.written id' (.inr hmem)).imp_right (mem_cons_of_mem _)
  · intro id' hsigned hmem
    rcases mem_cons.mp hmem with rfl | hmem
    · exact hid hsigned
    · exact h.apart id' hsigned hmem
  · intro id' hsigned hmem
    rcases (mem_insert _).mp hmem with rfl | hmem
    · exact absurd hsigned hid
    · exact h.unclaimed id' hsigned hmem
  · intro j env hj
    obtain ⟨hfree, hunclaimed⟩ := h.absent j env hj
    have hsigned : env.requestID ∈ s.signedIDs :=
      h.known j env (by rcases hj with hj | hj <;> rw [hj] <;> rfl)
    refine ⟨fun hmem => ?_, hunclaimed⟩
    rcases (mem_insert _).mp hmem with heq | hmem
    · exact hid (heq ▸ hsigned)
    · exact hfree hmem

/-- The rename takes the file out of `requests/` as its id becomes a claimed one. -/
theorem Tracked.claim (id : String) : (s.claim id).Tracked := by
  unfold MailboxState.claim
  split
  · exact h
  next file hfile =>
  have hin : id ∈ s.requests := mem_of_lookup hfile
  split
  · exact h.eraseRequest id
  refine { h.eraseRequest id with processing := ?_, working := ?_, dispatched := ?_,
                                  written := ?_, unclaimed := ?_, absent := ?_ }
  · intro id' hid'
    rcases (mem_insert _).mp hid' with rfl | hid'
    · exact mem_cons_self
    · exact mem_cons_of_mem _ (h.processing id' hid')
  · exact fun env henv => mem_cons_of_mem _ (h.working env henv)
  · exact fun env henv => mem_cons_of_mem _ (h.dispatched env henv)
  · intro id' hid'
    rcases hid' with hmem | hmem
    · exact h.written id' (.inl (mem_erase.mp hmem).2)
    rcases mem_cons.mp hmem with rfl | hmem
    · exact h.written id' (.inl hin)
    · exact h.written id' (.inr hmem)
  · intro id' hsigned hmem hclaimed
    obtain ⟨hne, hmem⟩ := mem_erase.mp hmem
    rcases mem_cons.mp hclaimed with rfl | hclaimed
    · exact hne rfl
    · exact h.unclaimed id' hsigned hmem hclaimed
  · intro j env hj
    obtain ⟨hfree, hunclaimed⟩ := h.absent j env hj
    refine ⟨fun hmem => hfree (mem_erase.mp hmem).2, fun hclaimed => ?_⟩
    rcases mem_cons.mp hclaimed with heq | hclaimed
    · exact hfree (heq ▸ hin)
    · exact hunclaimed hclaimed

theorem Tracked.dropExpired (id : String) : (s.dropExpired id).Tracked := by
  unfold MailboxState.dropExpired
  split
  · split
    · exact h.eraseRequest id
    · exact h
  · exact h

/-- Only the lanes change, and their new jobs have read no request yet. -/
theorem Tracked.setLanes {fast slow : Option Job} {queue inflight : List String}
    (hlanes : ∀ job, fast = some job ∨ slow = some job →
      (s.fast = some job ∨ s.slow = some job) ∨ job.phase.request = none) :
    { s with fast := fast, slow := slow, queue := queue, inflight := inflight }.Tracked := by
  refine { h with working := fun env henv => ?_ }
  obtain ⟨job, hjob, hreq⟩ := henv
  rcases hlanes job hjob with hold | hnone
  · exact h.working env ⟨job, hold, hreq⟩
  · cases hnone.symm.trans hreq

theorem Tracked.processOrDefer {id : String} {admits laneFull : Bool}
    (hstep : s.processOrDefer codec id admits laneFull = some t) : t.Tracked := by
  revert hstep
  fun_cases s.processOrDefer codec id admits laneFull with
  | case1 => rintro ⟨⟩
  | case2 | case3 =>
    rintro ⟨⟩
    exact h
  | case4 =>
    rintro ⟨⟩
    exact h.setLanes fun _ => .inl
  | case5 =>
    rintro ⟨⟩
    refine h.setLanes fun job hjob => ?_
    rcases hjob with hjob | hjob
    · cases hjob
      exact .inr rfl
    · exact .inl (.inr hjob)

theorem Tracked.takeSlow (hstep : s.takeSlow = some t) : t.Tracked := by
  revert hstep
  fun_cases MailboxState.takeSlow s with
  | case1 =>
    rintro ⟨⟩
    refine h.setLanes fun job hjob => ?_
    rcases hjob with hjob | hjob
    · exact .inl (.inl hjob)
    · cases hjob
      exact .inr rfl
  | case2 => rintro ⟨⟩

/-- A section of a job on one of the lanes. The lanes then hold the next job and old ones. -/
theorem Tracked.jobStep {job : Job} {next fast slow : Option Job} {queue inflight : List String}
    {e : JobEvent} {s' : MailboxState} (hjob : s.fast = some job ∨ s.slow = some job)
    (hstep : s.jobStep crypto codec job e = some (s', next)) (hlanes : s.OnLanes next fast slow) :
    { s' with fast := fast, slow := slow, queue := queue, inflight := inflight }.Tracked := by
  have hframe := jobStep_frame hstep
  rw [hframe.rest]
  refine { h with processing := ?_, dispatched := ?_, working := ?_ }
  · intro id hid
    obtain ⟨file, hfile⟩ := mem_iff_lookup.mp hid
    exact h.processing id (mem_of_lookup (hframe.processing id file hfile))
  · rintro env ⟨job', hjob', hreq⟩
    rcases hlanes job' hjob' with hnext | hold
    · rcases (hframe.next job' hnext).2 env hreq with hold | hread
      · exact h.working env ⟨job, hjob, hold⟩
      obtain ⟨hlook, hid⟩ := claimedEnvelope_spec hread
      rw [hid]
      exact h.processing job.id (mem_of_lookup hlook)
    · exact h.working env ⟨job', hold, hreq⟩
  · intro env henv
    rcases hframe.dispatched env henv with hold | ⟨answer, p, call, hphase⟩
    · exact h.dispatched env hold
    · exact h.working env ⟨job, hjob, by rw [hphase]; rfl⟩

/-- **Step lemma.** Every section of every party keeps track of the requests. -/
theorem Tracked.step {e : MailboxEvent} (hstep : s.step crypto codec e = some t) : t.Tracked := by
  revert hstep
  fun_cases s.step crypto codec e with
  | case2 | case3 | case18 =>
    rintro ⟨⟩
    exact { h with }
  | case4 => exact h.clientStep
  | case5 id file hid =>
    rintro ⟨⟩
    exact h.inject hid
  | case7 id =>
    rintro ⟨⟩
    exact h.claim id
  | case8 id =>
    rintro ⟨⟩
    exact h.dropExpired id
  | case9 id =>
    rintro ⟨⟩
    exact h.eraseRequest id
  | case10 => exact h.processOrDefer
  | case11 => exact h.takeSlow
  | case14 ev job hjob s' next hsection =>
    rintro ⟨⟩
    exact h.jobStep (.inl hjob) hsection (jobStep_frame hsection).onLanes_fast
  | case17 ev job hjob s' next hsection =>
    rintro ⟨⟩
    have hlanes := (jobStep_frame hsection).onLanes_slow
    cases next <;> exact h.jobStep (.inr hjob) hsection hlanes
  | case19 =>
    rintro ⟨⟩
    exact h.setLanes fun _ => .inl
  | case21 =>
    rintro ⟨⟩
    have hidle : { s with fast := none, slow := none, queue := [], inflight := [] }.Tracked :=
      h.setLanes fun _ hjob => by rcases hjob with hjob | hjob <;> cases hjob
    exact { hidle with }
  | _ => rintro ⟨⟩

end

/-! ## A call of `Do` that has returned -/

theorem step_returned {e : MailboxEvent} {j : Nat} {env : SignedRequest} {outcome : Outcome}
    (hstep : s.step crypto codec e = some t) (hj : s.clients j = .returned env outcome) :
    t.clients j = .returned env outcome := by
  rcases step_cases hstep with ⟨i, hframe⟩ | ⟨job, ev, s', next, -, -, hsection, rfl⟩ |
    ⟨job, ev, s', next, -, -, hsection, rfl⟩ | hquiet
  · have hne : j ≠ i := fun heq => hframe.running env outcome (heq ▸ hj)
    exact (hframe.other hne).trans hj
  · have hclients : s'.clients = s.clients := by rw [(jobStep_frame hsection).rest]
    exact (congrFun hclients j).trans hj
  · have hclients : s'.clients = s.clients := by rw [(jobStep_frame hsection).rest]
    cases next <;> exact (congrFun hclients j).trans hj
  · rw [hquiet.clients, hj]

end MailboxState

/-! ## Runs -/

/-- **Withdrawal is final.** If a call of `Do` has returned `ErrNotExecuted` in a run of the
    mailbox, then its request has not been dispatched, and is not dispatched in any continuation of
    the run. -/
theorem withdrawn_never_dispatched (crypto : Crypto) (codec : Codec) (subjectID : String)
    (authority : LedgerState) {s t : MailboxState} (before after : List MailboxEvent)
    (hbefore : exec (MailboxState.step crypto codec) (.blank subjectID authority) before = some s)
    (j : Nat) (env : SignedRequest) (hj : s.clients j = .returned env .notExecuted)
    (hafter : exec (MailboxState.step crypto codec) s after = some t) :
    ∀ env' ∈ t.dispatched, env'.requestID ≠ env.requestID := by
  have hs : s.Tracked :=
    exec_invariant MailboxState.Tracked (fun _ _ _ h hstep => h.step hstep)
      (tracked_blank subjectID authority) hbefore
  obtain ⟨ht, hreturned⟩ : t.Tracked ∧ t.clients j = .returned env .notExecuted :=
    exec_invariant (fun s => s.Tracked ∧ s.clients j = .returned env .notExecuted)
      (fun _ _ _ h hstep => ⟨h.1.step hstep, step_returned hstep h.2⟩) ⟨hs, hj⟩ hafter
  intro env' hdispatched heq
  exact (ht.absent j env (.inr hreturned)).2 (heq ▸ ht.dispatched env' hdispatched)

def sampleCall : Call := ⟨.operation, .query, "list", "", "", 0, ∅, none⟩
def sampleCodec : Codec := ⟨fun _ => [1], fun _ => some sampleCall, fun _ => false⟩
def sampleCrypto : Crypto := ⟨fun _ _ => true, fun _ => ""⟩
def sampleBootID : String := String.ofList (List.replicate 64 'b')

/-- A request issued at one thousand seconds with the full lifetime. -/
def sampleRequest : SignedRequest where
  protocol := 1
  bootID := sampleBootID
  keyID := "00112233445566778899aabbccddeeff"
  generation := 1
  requestID := String.ofList (List.replicate 32 'a')
  issuedAt := 1000000
  expiresAt := 1030000
  body := [1]
  signature := String.ofList (List.replicate 86 'A')

def sampleRegistry : RegistryFile where
  current := AList.insert (currentKey .session "s1") sampleRequest.keyID ∅
  records := AList.insert sampleRequest.keyID
    ⟨sampleRequest.keyID, "s1", .session, 1, "pub", 0, 10 ^ 12, 0⟩ ∅

/-- A boot at one thousand seconds with an empty ledger. -/
def sampleAuthority : LedgerState :=
  openedAuthority sampleBootID (1000 * 10 ^ 9) sampleRegistry ∅ 0

/-- A client publishes its request, nobody claims it, and the client withdraws it. -/
def withdrawnEvents : List MailboxEvent :=
  [.publishService, .client 0 (.sign sampleCall sampleRequest), .client 0 (.publish .ok),
    .client 0 .read, .client 0 (.service true), .client 0 (.expire (1036 * 10 ^ 9) true)]

/-- The server tries to claim it afterwards. -/
def lateEvents : List MailboxEvent :=
  [.claim sampleRequest.requestID, .serve sampleRequest.requestID true false, .fast (.read true)]

theorem withdrawn_never_dispatched_late :
    ∃ s t, exec (MailboxState.step sampleCrypto sampleCodec) (.blank "s1" sampleAuthority)
        withdrawnEvents = some s ∧
      s.clients 0 = .returned sampleRequest .notExecuted ∧
      exec (MailboxState.step sampleCrypto sampleCodec) s lateEvents = some t ∧
      ∀ env' ∈ t.dispatched, env'.requestID ≠ sampleRequest.requestID := by
  simp only [exists_and_left]
  refine reaches_imp (P := fun s => s.clients 0 = .returned sampleRequest .notExecuted ∧
    (exec (step sampleCrypto sampleCodec) s lateEvents).isSome)
    (by decide +kernel) ?_
  rintro s hs ⟨hreturned, hrest⟩
  obtain ⟨t, ht⟩ := Option.isSome_iff_exists.mp hrest
  exact ⟨hreturned, t, ht, withdrawn_never_dispatched sampleCrypto sampleCodec "s1" sampleAuthority
    withdrawnEvents lateEvents hs 0 sampleRequest hreturned ht⟩

end AgentMultiplexer.SessionRpc
