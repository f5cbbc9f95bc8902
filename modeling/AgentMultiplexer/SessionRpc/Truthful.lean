import AgentMultiplexer.SessionRpc.Withdrawal

set_option autoImplicit false

/-! # Rejections are truthful, when `Verify` can tell

A response that rejects a request before its dispatch tells the client that the request did not run.
It is wrong when the request had been dispatched: its response could not be published, the request
stayed claimed, and the next attempt ends in `Verify`, which checks expiry and credential before it
looks for the request in the replay ledger. The second way to a wrong rejection is the reverse: a
rejection became visible, but the request stayed claimed (the publication reported an error, or the
unlink failed), and a later attempt was accepted.

The first part proves that there is no third way: as long as every repeated `Verify` finds the
request in the ledger, a rejection the client accepts is final. What carries it is that a claimed
name has one job at a time, and that both the rejection the client accepts and a dispatch belong to
the boot the request was signed for. The last two parts are the two wrong ways. -/

namespace AgentMultiplexer.SessionRpc

open Access List Transition MailboxState

namespace MailboxState

/-- The request was dispatched under this boot id. -/
def DispatchedIn (s : MailboxState) (id boot : String) : Prop :=
  ∃ env ∈ s.dispatched, env.requestID = id ∧ env.bootID = boot

/-- A response of this boot has said that the request was not dispatched. -/
def RejectedIn (s : MailboxState) (id boot : String) : Prop :=
  ∃ r ∈ s.published, r.branch.preDispatch = true ∧ r.requestID = id ∧ r.bootID = boot

/-- The condition on the sections of `Verify`. A request that this boot has dispatched passes the
    checks before the ledger and is in the ledger; one that this boot has rejected is not
    accepted. -/
def JobVerifies (crypto : Crypto) (s : MailboxState) (job : Job) : JobEvent → Prop
  | .verify => ∀ env answer, job.phase = .reserved env answer →
      s.DispatchedIn env.requestID s.authority.bootID →
      checkEnvelope s.authority.bootID s.authority.clock env = none
  | .decide => ∀ env answer now, job.phase = .leasing env answer now →
      (s.DispatchedIn env.requestID s.authority.bootID →
        (∃ rec, checkCredential crypto s.authority.closed s.authority.registry now env = .ok rec) ∧
          replayKey (replayRecordOf crypto env) ∈ s.authority.entries) ∧
      (s.RejectedIn env.requestID s.authority.bootID →
        ∀ p, (verifyDecide crypto s.authority env now).2 ≠ .ok p)
  | _ => True

/-- The same for a section of the mailbox. -/
def VerifiesTruly (crypto : Crypto) (s : MailboxState) : MailboxEvent → Prop
  | .fast e => ∀ job, s.fast = some job → s.JobVerifies crypto job e
  | .slow e => ∀ job, s.slow = some job → s.JobVerifies crypto job e
  | _ => True

variable {crypto : Crypto} {codec : Codec} {s t : MailboxState}

/-! ## One job per claimed name -/

/-- The slow lane owns the names in `inflight`, each of them once. -/
structure Lanes (s : MailboxState) : Prop where
  fast : ∀ job, s.fast = some job → job.id ∉ s.inflight
  slow : ∀ job, s.slow = some job → job.id ∈ s.inflight ∧ job.id ∉ s.queue
  queue : ∀ id ∈ s.queue, id ∈ s.inflight
  queueNodup : s.queue.Nodup
  inflightNodup : s.inflight.Nodup

theorem Lanes.processOrDefer (h : s.Lanes) {id : String} {admits laneFull : Bool}
    (hstep : s.processOrDefer codec id admits laneFull = some t) : t.Lanes := by
  revert hstep
  fun_cases s.processOrDefer codec id admits laneFull with
  | case1 => rintro ⟨⟩
  | case2 | case3 =>
    rintro ⟨⟩
    exact h
  | case4 hidle hfree =>
    rintro ⟨⟩
    have hqueue : id ∉ s.queue := fun hmem => hfree (h.queue id hmem)
    refine ⟨fun job hjob => ?_, fun job hjob => ?_, fun id' hid' => ?_, ?_, ?_⟩
    · cases hidle.symm.trans hjob
    · obtain ⟨hin, hout⟩ := h.slow job hjob
      refine ⟨mem_cons_of_mem _ hin, fun hmem => ?_⟩
      rcases mem_append.mp hmem with hmem | hmem
      · exact hout hmem
      · exact hfree (mem_singleton.mp hmem ▸ hin)
    · rcases mem_append.mp hid' with hmem | hmem
      · exact mem_cons_of_mem _ (h.queue id' hmem)
      · exact mem_singleton.mp hmem ▸ mem_cons_self
    · refine nodup_append.mpr ⟨h.queueNodup, nodup_singleton _, ?_⟩
      rintro a ha b hb rfl
      exact hqueue (mem_singleton.mp hb ▸ ha)
    · exact nodup_cons.mpr ⟨hfree, h.inflightNodup⟩
  | case5 _ hfree =>
    rintro ⟨⟩
    refine { h with fast := fun job hjob => ?_ }
    cases hjob
    exact hfree

theorem Lanes.takeSlow (h : s.Lanes) (hstep : s.takeSlow = some t) : t.Lanes := by
  revert hstep
  fun_cases MailboxState.takeSlow s with
  | case1 id queue hqueue hslow =>
    rintro ⟨⟩
    have hnodup := h.queueNodup
    rw [hqueue, nodup_cons] at hnodup
    have hin : ∀ id' ∈ id :: queue, id' ∈ s.inflight := hqueue ▸ h.queue
    refine ⟨h.fast, fun job hjob => ?_, fun id' hid' => hin id' (mem_cons_of_mem _ hid'),
      hnodup.2, h.inflightNodup⟩
    cases hjob
    exact ⟨hin _ mem_cons_self, hnodup.1⟩
  | case2 => rintro ⟨⟩

variable {s' : MailboxState} {next : Option Job} {job : Job}

/-- A job keeps its name; a finished one of the slow lane gives it back. -/
theorem Lanes.jobStep (h : s.Lanes) {e : JobEvent}
    (hstep : s.jobStep crypto codec job e = some (s', next)) :
    (s.fast = some job → { s' with fast := next }.Lanes) ∧
      (s.slow = some job → (s'.setSlow job.id next).Lanes) := by
  have hframe := jobStep_frame hstep
  have hs' : s'.Lanes := by
    rw [hframe.rest]
    exact { h with }
  have hinflight : s'.inflight = s.inflight := by rw [hframe.rest]
  have hslow : s'.slow = s.slow := by rw [hframe.rest]
  constructor
  · intro hjob
    refine { hs' with fast := fun job' hjob' => ?_ }
    rw [(hframe.next job' hjob').1]
    exact hinflight ▸ h.fast job hjob
  intro hjob
  obtain ⟨hin, hout⟩ := hs'.slow job (hslow.trans hjob)
  cases next with
  | some job' =>
    refine { hs' with slow := fun job'' hjob'' => ?_ }
    cases hjob''
    rw [(hframe.next job' rfl).1]
    exact ⟨hin, hout⟩
  | none =>
    refine ⟨fun job' hjob' hmem => hs'.fast job' hjob' (mem_of_mem_erase hmem),
      (fun _ hjob' => by cases hjob'), fun id hid => ?_, hs'.queueNodup,
      hs'.inflightNodup.erase _⟩
    have hne : id ≠ job.id := fun heq => hout (heq ▸ hid)
    exact (mem_erase_of_ne hne).mpr (hs'.queue id hid)

variable {e : MailboxEvent}

theorem Lanes.step (h : s.Lanes) (hstep : s.step crypto codec e = some t) : t.Lanes := by
  revert hstep
  fun_cases s.step crypto codec e with
  | case4 j ev =>
    intro hstep
    rw [(clientStep_frame hstep).rest]
    exact { h with }
  | case10 => exact h.processOrDefer
  | case11 => exact h.takeSlow
  | case14 ev job hjob s' next hsection =>
    rintro ⟨⟩
    exact (h.jobStep hsection).1 hjob
  | case17 ev job hjob s' next hsection =>
    rintro ⟨⟩
    exact (h.jobStep hsection).2 hjob
  | case19 hslow hfast =>
    rintro ⟨⟩
    exact ⟨(fun _ hjob => by cases hfast.symm.trans hjob),
      (fun _ hjob => by cases hslow.symm.trans hjob), (fun _ hid => by cases hid), .nil, .nil⟩
  | case21 =>
    rintro ⟨⟩
    exact ⟨(fun _ hjob => by cases hjob), (fun _ hjob => by cases hjob),
      (fun _ hid => by cases hid), .nil, .nil⟩
  | case2 | case3 | case5 | case9 | case18 =>
    rintro ⟨⟩
    exact { h with }
  | case7 id =>
    rintro ⟨⟩
    fun_cases s.claim id with
    | case1 => exact h
    | case2 | case3 => exact { h with }
  | case8 id =>
    rintro ⟨⟩
    fun_cases s.dropExpired id with
    | case1 => exact { h with }
    | case2 | case3 => exact h
  | _ => rintro ⟨⟩

/-! ## The files of a request hold that request -/

/-- What lies in the mailbox under the id of a client's request is that request. -/
structure Genuine (s : MailboxState) (env : SignedRequest) : Prop where
  requests : ∀ file, s.requests.lookup env.requestID = some file → file = some env
  processing : ∀ file, s.processing.lookup env.requestID = some file → file = some env
  working : ∀ env', s.Working env' → env'.requestID = env.requestID → env' = env
  dispatched : ∀ env' ∈ s.dispatched, env'.requestID = env.requestID → env' = env

variable {env : SignedRequest}

theorem Tracked.genuine_of_fresh (h : s.Tracked)
    (hsigned : env.requestID ∉ s.signedIDs) (hforeign : env.requestID ∉ s.foreignIDs) :
    s.Genuine env := by
  have hclaimed : env.requestID ∉ s.claimedIDs := fun hid =>
    (h.written _ (.inr hid)).elim hsigned hforeign
  refine ⟨fun file hfile => ?_, fun file hfile => ?_, fun env' hwork heq => ?_,
    fun env' hdisp heq => ?_⟩
  · exact ((h.written _ (.inl (GoMap.mem_of_lookup hfile))).elim hsigned hforeign).elim
  · exact absurd (h.processing _ (GoMap.mem_of_lookup hfile)) hclaimed
  · exact absurd (heq ▸ h.working env' hwork) hclaimed
  · exact absurd (heq ▸ h.dispatched env' hdisp) hclaimed

def AllGenuine (s : MailboxState) : Prop :=
  ∀ j env, (s.clients j).request = some env → s.Genuine env

theorem AllGenuine.client (h : s.AllGenuine) (hs : s.Tracked) {j : Nat}
    (hframe : ClientFrame crypto s j t) : t.AllGenuine := by
  intro i env hi
  -- the request is an old one of the same client, or fresh
  have hold : s.Genuine env := by
    by_cases hij : i = j
    · subst hij
      rcases hframe.request env hi with hreq | ⟨hsigned, hforeign⟩
      · exact h i env hreq
      · exact hs.genuine_of_fresh hsigned hforeign
    · rw [hframe.other hij] at hi
      exact h i env hi
  have hfile : ∀ file, t.requests.lookup env.requestID = some file → file = some env := by
    intro file hfile
    rcases hframe.requests _ file hfile with hlook | ⟨env', hsigned, hid, rfl⟩
    · exact hold.requests file hlook
    -- the signed request has this id, so it is this one
    have hj : (s.clients j).request = some env' := by rw [hsigned]; rfl
    by_cases hij : i = j
    · subst hij
      rcases hframe.request env hi with hreq | ⟨hfresh, -⟩
      · rw [← hj, hreq]
      · exact absurd (hid ▸ hs.known i env' hj) hfresh
    · rw [hframe.other hij] at hi
      exact absurd (hs.one i j env env' hi hj hid) hij
  have hprocessing : t.processing = s.processing := by rw [hframe.rest]
  have hdispatched : t.dispatched = s.dispatched := by rw [hframe.rest]
  have hworking : ∀ env', t.Working env' → s.Working env' := by
    intro env' hwork
    rw [hframe.rest] at hwork
    exact hwork
  refine ⟨hfile, ?_, fun env' hwork => hold.working env' (hworking env' hwork), ?_⟩
  · rw [hprocessing]
    exact hold.processing
  · rw [hdispatched]
    exact hold.dispatched

/-- A job works on, and dispatches, what it read. The lanes then hold the next job and old ones. -/
theorem Genuine.jobStep (h : s.Genuine env) {e : JobEvent} {fast slow : Option Job}
    {queue inflight : List String} (hjob : s.fast = some job ∨ s.slow = some job)
    (hstep : s.jobStep crypto codec job e = some (s', next)) (hlanes : s.OnLanes next fast slow) :
    { s' with fast := fast, slow := slow, queue := queue, inflight := inflight }.Genuine env := by
  have hframe := jobStep_frame hstep
  refine ⟨?_, fun file hfile => h.processing file (hframe.processing _ file hfile), ?_, ?_⟩
  · rw [hframe.rest]
    exact h.requests
  · rintro env' ⟨job', hjob', hreq⟩ hid
    rcases hlanes job' hjob' with hnext | hlane
    · rcases (hframe.next job' hnext).2 env' hreq with hold | hread
      · exact h.working env' ⟨job, hjob, hold⟩ hid
      obtain ⟨hlook, hname⟩ := claimedEnvelope_spec hread
      rw [← hname, hid] at hlook
      exact Option.some.inj (h.processing _ hlook)
    · exact h.working env' ⟨job', hlane, hreq⟩ hid
  · intro env' hdisp hid
    rcases hframe.dispatched env' hdisp with hold | ⟨answer, p, call, hphase⟩
    · exact h.dispatched env' hold hid
    · exact h.working env' ⟨job, hjob, by rw [hphase]; rfl⟩ hid

theorem AllGenuine.step (h : s.AllGenuine) (hs : s.Tracked)
    (hstep : s.step crypto codec e = some t) : t.AllGenuine := by
  rcases step_cases hstep with ⟨j, hframe⟩ | ⟨job, ev, s', next, -, hjob, hsection, rfl⟩ |
    ⟨job, ev, s', next, -, hjob, hsection, rfl⟩ | hquiet
  · exact h.client hs hframe
  · intro j env hj
    rw [(jobStep_frame hsection).rest] at hj
    exact (h j env hj).jobStep (.inl hjob) hsection (jobStep_frame hsection).onLanes_fast
  · intro j env hj
    have hj' : (s'.clients j).request = some env := by cases next <;> exact hj
    rw [(jobStep_frame hsection).rest] at hj'
    have hlanes := (jobStep_frame hsection).onLanes_slow
    cases next <;> exact (h j env hj').jobStep (.inr hjob) hsection hlanes
  · intro j env hj
    rw [hquiet.clients] at hj
    have hgen := h j env hj
    have hsigned := hs.known j env hj
    refine ⟨fun file hfile => ?_, fun file hfile => ?_, fun env' hwork => ?_, ?_⟩
    · rcases hquiet.requests _ file hfile with hold | hforeign
      · exact hgen.requests file hold
      · exact absurd hsigned hforeign
    · rcases hquiet.processing _ file hfile with hold | hmoved
      · exact hgen.processing file hold
      · exact hgen.requests file hmoved
    · obtain ⟨job, hjob, hreq⟩ := hwork
      refine hgen.working env' ⟨job, ?_, hreq⟩
      rcases hjob with hjob | hjob
      · rcases hquiet.fast job hjob with hold | hstart
        · exact .inl hold
        · rw [hstart] at hreq
          cases hreq
      · rcases hquiet.slow job hjob with hold | hstart
        · exact .inr hold
        · rw [hstart] at hreq
          cases hreq
    · rw [hquiet.dispatched]
      exact hgen.dispatched

/-! ## Jobs are honest -/

/-- What a job knows of its request: from the acceptance on, this boot has neither dispatched nor
    rejected it, and a rejection waits to be published only if this boot has not dispatched it. -/
def JobHonest (s : MailboxState) (job : Job) : Prop :=
  match job.phase with
  | .start | .unlinking => True
  | .reserved env _ => env.requestID = job.id
  | .leasing env _ _ => env.requestID = job.id ∧ env.bootID = s.authority.bootID
  | .appending env _ _ | .checking env _ _ _ _ =>
    env.requestID = job.id ∧ env.bootID = s.authority.bootID ∧
      ¬ s.DispatchedIn job.id s.authority.bootID ∧ ¬ s.RejectedIn job.id s.authority.bootID
  | .publishing _ r =>
    r.requestID = job.id ∧ r.bootID = s.authority.bootID ∧
      (r.branch.preDispatch = true → ¬ s.DispatchedIn job.id s.authority.bootID)

section Job

variable {job : Job}

/-- A step of the same boot that neither dispatches nor rejects the job's request. -/
theorem JobHonest.mono (h : s.JobHonest job) (hboot : t.authority.bootID = s.authority.bootID)
    (hdisp : ∀ boot, t.DispatchedIn job.id boot → s.DispatchedIn job.id boot)
    (hrej : ∀ boot, t.RejectedIn job.id boot → s.RejectedIn job.id boot) : t.JobHonest job := by
  unfold JobHonest at h ⊢
  rw [hboot]
  cases hphase : job.phase with rw [hphase] at h
  | start | unlinking => trivial
  | reserved | leasing => exact h
  | appending | checking =>
    exact ⟨h.1, h.2.1, fun hd => h.2.2.1 (hdisp _ hd), fun hr => h.2.2.2 (hrej _ hr)⟩
  | publishing => exact ⟨h.1, h.2.1, fun hpre hd => h.2.2 hpre (hdisp _ hd)⟩

variable {env : SignedRequest}

theorem JobHonest.refuse {answer : Answer} {status : Status} {code : String}
    {branch : Branch} (hid : env.requestID = job.id)
    (hnot : branch.preDispatch = true → ¬ s.DispatchedIn job.id s.authority.bootID) :
    s.JobHonest (job.enter (s.refuse crypto env answer status code branch)) := by
  cases answer with
  | release => trivial
  | respond | discard => exact ⟨hid, rfl, hnot⟩

theorem checkEnvelope_bootID {boot : String} {now : Int}
    (h : checkEnvelope boot now env = none) : env.bootID = boot := by
  unfold checkEnvelope at h
  split_ifs at h with hok
  simp only [not_or, not_not] at hok
  exact hok.2.1

/-- The authority's ledger moves; what the job knows does not depend on it. -/
theorem JobHonest.authority (h : s.JobHonest job) {a : LedgerState}
    (hboot : a.bootID = s.authority.bootID) : { s with authority := a }.JobHonest job :=
  h.mono hboot (fun _ h => h) (fun _ h => h)

/-- A dispatched request is answered with a replay, and nothing else. -/
theorem JobHonest.replayed (h : s.JobHonest job) {answer : Answer} {now : Int}
    (hcond : s.JobVerifies crypto job .decide) (hphase : job.phase = .leasing env answer now)
    (hdisp : s.DispatchedIn job.id s.authority.bootID) :
    (verifyDecide crypto s.authority env now).2 = .error .replay := by
  simp only [JobHonest, hphase] at h
  obtain ⟨⟨rec, hcred⟩, hkey⟩ := (hcond env answer now hphase).1 (h.1.symm ▸ hdisp)
  have haccept : acceptReplay s.authority.entries s.authority.records
      (replayRecordOf crypto env) now = (s.authority.entries, some .replay) := by
    rw [acceptReplay, if_pos hkey]
  simp only [verifyDecide, hcred, haccept]

theorem JobHonest.jobStep (h : s.JobHonest job) {e : JobEvent} {job' : Job}
    (hcond : s.JobVerifies crypto job e)
    (hstep : s.jobStep crypto codec job e = some (s', some job')) : s'.JobHonest job' := by
  revert hstep
  fun_cases s.jobStep crypto codec job e with
  | case3 room _ env henv =>
    rintro ⟨⟩
    exact (claimedEnvelope_spec henv).2
  | case5 env answer hphase err herr =>
    simp only [JobHonest, hphase] at h
    rintro ⟨⟩
    refine .refuse h fun _ hdisp => ?_
    cases herr.symm.trans (hcond env answer hphase (h.symm ▸ hdisp))
  | case6 env answer hphase hok =>
    simp only [JobHonest, hphase] at h
    rintro ⟨⟩
    exact ⟨h, checkEnvelope_bootID hok⟩
  | case8 env answer now hphase authority err hdec =>
    have hreplay := h.replayed hcond hphase
    have hboot := verifyDecide_bootID crypto s.authority env now
    simp only [JobHonest, hphase] at h
    rw [hdec] at hboot hreplay
    rintro ⟨⟩
    refine .authority (.refuse h.1 fun hpre hdisp => ?_) hboot
    obtain rfl : err = .replay := by simpa using hreplay hdisp
    cases hpre
  | case9 env answer now hphase authority p hdec =>
    have hreplay := h.replayed hcond hphase
    have hboot := verifyDecide_bootID crypto s.authority env now
    simp only [JobHonest, hphase] at h
    have hrejected := (hcond env answer now hphase).2
    rw [hdec] at hboot hreplay hrejected
    rw [h.1] at hrejected
    rintro ⟨⟩
    have haccepted : s.JobHonest (job.enter (.appending env answer p)) :=
      ⟨h.1, h.2, (fun hdisp => by cases hreplay hdisp), fun hrej => hrejected hrej p rfl⟩
    exact haccepted.authority hboot
  | case11 env answer p hphase =>
    simp only [JobHonest, hphase] at h
    rintro ⟨⟩
    refine .authority ?_ rfl
    fun_cases s.checkCall crypto codec env answer p with
    | case4 => exact h
    | _ => exact .refuse h.1 fun _ => h.2.2.1
  | case12 ok env answer p hphase =>
    simp only [JobHonest, hphase] at h
    rintro ⟨⟩
    exact .refuse h.1 fun _ => h.2.2.1
  | case15 authorized env answer p call check hphase phase hcheck =>
    simp only [JobHonest, hphase] at h
    rintro ⟨⟩
    revert hcheck
    fun_cases nextCheck crypto s env answer p call authorized check with
    | case1 | case4 | case6 =>
      rintro ⟨⟩
      exact h
    | case2 | case5 | case7 =>
      rintro ⟨⟩
      exact .refuse h.1 fun _ => h.2.2.1
    | _ => rintro ⟨⟩
  | case18 execution env answer p call hphase _ _ hexec =>
    simp only [JobHonest, hphase] at h
    rintro ⟨⟩
    revert hexec
    fun_cases executeCall crypto s env answer call execution with
    | case1 | case4 | case6 =>
      rintro ⟨⟩
      exact ⟨h.1, rfl, fun hpre => by cases hpre⟩
    | _ => rintro ⟨⟩
  | case1 | case20 | case23 | case24 =>
    rintro ⟨⟩
    trivial
  | _ => rintro ⟨⟩

/-- What the job's section adds to the dispatches and the rejections is about its own request. -/
theorem JobHonest.added (h : s.JobHonest job) (hframe : JobFrame s job s' next) {id boot : String} :
    (s'.DispatchedIn id boot → s.DispatchedIn id boot ∨
      (id = job.id ∧ boot = s.authority.bootID ∧ ¬ s.RejectedIn id boot ∧
        job.phase.request.isSome)) ∧ (s'.RejectedIn id boot → s.RejectedIn id boot ∨
      (id = job.id ∧ boot = s.authority.bootID ∧ ¬ s.DispatchedIn id boot ∧
        job.phase.request = none)) := by
  constructor
  · rintro ⟨env, hmem, rfl, rfl⟩
    rcases hframe.dispatched env hmem with hold | ⟨answer, p, call, hphase⟩
    · exact .inl ⟨env, hold, rfl, rfl⟩
    simp only [JobHonest, hphase] at h
    obtain ⟨hid, hboot, -, hrej⟩ := h
    rw [← hid, ← hboot] at hrej
    exact .inr ⟨hid, hboot, hrej, by rw [hphase]; rfl⟩
  · rintro ⟨r, hmem, hpre, rfl, rfl⟩
    rcases hframe.published r hmem with hold | hphase
    · exact .inl ⟨r, hold, hpre, rfl, rfl⟩
    simp only [JobHonest, hphase] at h
    obtain ⟨hid, hboot, hdisp⟩ := h
    rw [← hid, ← hboot] at hdisp
    exact .inr ⟨hid, hboot, hdisp hpre, by rw [hphase]; rfl⟩

end Job

/-! ## The mailbox is honest -/

/-- No boot both rejects and dispatches a request, the responses there are were published, and a
    client that returned one had read it for its own request and boot. -/
structure Honest (s : MailboxState) : Prop where
  disjoint : ∀ id boot, s.RejectedIn id boot → ¬ s.DispatchedIn id boot
  responses : ∀ id r, s.responses.lookup id = some r → r ∈ s.published
  clients : ∀ j env r, s.clients j = .returned env (.response r) →
    r ∈ s.published ∧ r.requestID = env.requestID ∧ r.bootID = env.bootID
  fast : ∀ job, s.fast = some job → s.JobHonest job
  slow : ∀ job, s.slow = some job → s.JobHonest job

/-- What one job does leaves the mailbox honest, if the lanes then hold the next job and jobs under
    other names. -/
theorem Honest.jobStep (h : s.Honest) {e : JobEvent} {fast slow : Option Job}
    {queue inflight : List String} (hjob : s.JobHonest job) (hcond : s.JobVerifies crypto job e)
    (hstep : s.jobStep crypto codec job e = some (s', next))
    (hlanes : ∀ job', fast = some job' ∨ slow = some job' →
      next = some job' ∨ s.JobHonest job' ∧ job'.id ≠ job.id) :
    { s' with fast := fast, slow := slow, queue := queue, inflight := inflight }.Honest := by
  have hframe := jobStep_frame hstep
  have hlane : ∀ job', fast = some job' ∨ slow = some job' → s'.JobHonest job' := by
    intro job' hjob'
    obtain rfl | ⟨hother, hne⟩ := hlanes job' hjob'
    · exact hjob.jobStep hcond hstep
    refine hother.mono hframe.boot (fun boot hdisp => ?_) fun boot hrej => ?_
    · exact ((hjob.added hframe).1 hdisp).resolve_right fun hown => hne hown.1
    · exact ((hjob.added hframe).2 hrej).resolve_right fun hown => hne hown.1
  refine ⟨fun id boot hrej hdisp => ?_, fun id r hlook => ?_, fun j env r hj => ?_,
    fun job' hjob' => hlane job' (.inl hjob'), fun job' hjob' => hlane job' (.inr hjob')⟩
  · rcases (hjob.added hframe).1 hdisp with hdisp' | ⟨-, -, hnot, hsome⟩
    · rcases (hjob.added hframe).2 hrej with hrej' | ⟨-, -, hnot, -⟩
      · exact h.disjoint id boot hrej' hdisp'
      · exact hnot hdisp'
    · rcases (hjob.added hframe).2 hrej with hrej' | ⟨-, -, -, hnone⟩
      · exact hnot hrej'
      · rw [hnone] at hsome
        cases hsome
  · rcases hframe.responses id r hlook with hold | hnew
    · exact hframe.kept (h.responses id r hold)
    · exact hnew
  · rw [hframe.rest] at hj
    obtain ⟨hmem, hid, hboot⟩ := h.clients j env r hj
    exact ⟨hframe.kept hmem, hid, hboot⟩

theorem Honest.step (h : s.Honest) (hlanes : s.Lanes)
    (hcond : s.VerifiesTruly crypto e) (hstep : s.step crypto codec e = some t) : t.Honest := by
  rcases step_cases hstep with ⟨j, hframe⟩ | ⟨job, ev, s', next, rfl, hjob, hsection, rfl⟩ |
    ⟨job, ev, s', next, rfl, hjob, hsection, rfl⟩ | hquiet
  · have hclients : ∀ i env r, t.clients i = .returned env (.response r) →
        r ∈ s.published ∧ r.requestID = env.requestID ∧ r.bootID = env.bootID := by
      intro i env r hi
      by_cases hij : i = j
      · have hread := hframe.read env r (hij ▸ hi)
        unfold readResponse at hread
        split at hread
        · cases hread
        next r' hlook =>
        split_ifs at hread with hmatch
        simp only [not_or, not_not] at hmatch
        cases hread
        exact ⟨h.responses _ r hlook, hmatch.2.2.2.2.1, hmatch.1⟩
      · exact h.clients i env r (hframe.other hij ▸ hi)
    rw [hframe.rest] at hclients ⊢
    exact { h with clients := hclients }
  · refine h.jobStep (h.fast job hjob) (hcond job hjob) hsection fun job' hjob' => ?_
    rw [(jobStep_frame hsection).rest] at hjob'
    refine hjob'.imp_right fun hslow => ⟨h.slow job' hslow, fun heq => ?_⟩
    exact hlanes.fast job hjob (heq ▸ (hlanes.slow job' hslow).1)
  · have hother : ∀ job', s'.fast = some job' ∨ next = some job' →
        next = some job' ∨ s.JobHonest job' ∧ job'.id ≠ job.id := by
      intro job' hjob'
      rw [(jobStep_frame hsection).rest] at hjob'
      refine hjob'.symm.imp_right fun hfast => ⟨h.fast job' hfast, fun heq => ?_⟩
      exact hlanes.fast job' hfast (heq ▸ (hlanes.slow job hjob).1)
    cases next <;> exact h.jobStep (h.slow job hjob) (hcond job hjob) hsection hother
  · have hdisp : ∀ id boot, t.DispatchedIn id boot → s.DispatchedIn id boot := by
      intro id boot hd
      rwa [DispatchedIn, hquiet.dispatched] at hd
    have hrej : ∀ id boot, t.RejectedIn id boot → s.RejectedIn id boot := by
      intro id boot hr
      rwa [RejectedIn, hquiet.published] at hr
    have hlane : ∀ job, (t.fast = some job ∨ t.slow = some job) →
        (s.JobHonest job ∨ job.phase = .start) → t.JobHonest job := by
      intro job hlane hold
      rcases hold with hold | hstart
      · rcases hquiet.boot with hboot | ⟨hfast, hslow⟩
        · exact hold.mono hboot (hdisp job.id) (hrej job.id)
        · rw [hfast, hslow] at hlane
          rcases hlane with hlane | hlane <;> cases hlane
      · simp only [JobHonest, hstart]
    refine ⟨fun id boot hr hd => h.disjoint id boot (hrej id boot hr) (hdisp id boot hd),
      fun id r hlook => ?_, fun j env r hj => ?_, fun job hjob => ?_, fun job hjob => ?_⟩
    · rw [hquiet.published]
      exact h.responses id r (hquiet.responses id r hlook)
    · rw [hquiet.published]
      rw [hquiet.clients] at hj
      exact h.clients j env r hj
    · exact hlane job (.inl hjob) ((hquiet.fast job hjob).imp_left (h.fast job))
    · exact hlane job (.inr hjob) ((hquiet.slow job hjob).imp_left (h.slow job))

/-! ## Runs -/

structure Inv (s : MailboxState) : Prop where
  tracked : s.Tracked
  lanes : s.Lanes
  genuine : s.AllGenuine
  honest : s.Honest

theorem Inv.step (h : s.Inv) (hcond : s.VerifiesTruly crypto e)
    (hstep : s.step crypto codec e = some t) : t.Inv where
  tracked := h.tracked.step hstep
  lanes := h.lanes.step hstep
  genuine := h.genuine.step h.tracked hstep
  honest := h.honest.step h.lanes hcond hstep

theorem inv_blank (subjectID : String) (authority : LedgerState) :
    (blank subjectID authority).Inv where
  tracked := tracked_blank subjectID authority
  lanes := ⟨(fun _ h => by cases h), (fun _ h => by cases h), (fun _ h => by cases h), .nil, .nil⟩
  genuine _ _ h := by cases h
  honest := by
    refine ⟨?_, ?_, (fun _ _ _ h => by cases h), (fun _ h => by cases h), (fun _ h => by cases h)⟩
    · rintro id boot ⟨r, hr, -⟩
      cases hr
    · intro id r h
      cases h

end MailboxState

/-- **Truthful rejections.** In a run of the mailbox in which every `Verify` of a request that its
    boot has dispatched gets as far as the ledger and finds the request there, and none accepts a
    request that its boot has rejected: if a client has read a response that one of the branches
    before the dispatch published, then its request was never dispatched. -/
theorem rejection_truthful (crypto : Crypto) (codec : Codec) (subjectID : String)
    (authority : LedgerState) {t : MailboxState} (events : List MailboxEvent)
    (hcond : Along (MailboxState.step crypto codec) (MailboxState.VerifiesTruly crypto)
      (.blank subjectID authority) events)
    (hrun : exec (MailboxState.step crypto codec) (.blank subjectID authority) events = some t)
    (j : Nat) (env : SignedRequest) (r : Response)
    (hj : t.clients j = .returned env (.response r)) (hpre : r.branch.preDispatch = true) :
    ∀ env' ∈ t.dispatched, env'.requestID ≠ env.requestID := by
  have hinv : t.Inv :=
    exec_invariant_along (MailboxState.VerifiesTruly crypto) MailboxState.Inv
      (fun _ _ _ h hP hstep => h.step hP hstep) (inv_blank subjectID authority)
      hcond hrun
  intro env' hdisp hid
  obtain ⟨hmem, hrid, hrboot⟩ := hinv.honest.clients j env r hj
  -- the dispatched request is the client's own, so it was dispatched in the boot that rejected it
  have hreq : (t.clients j).request = some env := by rw [hj]; rfl
  obtain rfl := (hinv.genuine j env hreq).dispatched env' hdisp hid
  exact hinv.honest.disjoint env'.requestID env'.bootID ⟨r, hmem, hpre, hrid, hrboot⟩
    ⟨env', hdisp, rfl, rfl⟩

/-- A test that implies the condition: `Verify` runs while nothing was dispatched or answered. -/
def unanswered (s : MailboxState) : MailboxEvent → Bool
  | .fast .verify | .fast .decide | .slow .verify | .slow .decide =>
    s.dispatched.isEmpty && s.published.isEmpty
  | _ => true

theorem jobVerifies_of_empty {crypto : Crypto} {s : MailboxState}
    (h : (s.dispatched.isEmpty && s.published.isEmpty) = true) (job : Job) (e : JobEvent) :
    s.JobVerifies crypto job e := by
  rw [Bool.and_eq_true, List.isEmpty_iff, List.isEmpty_iff] at h
  have hdisp : ∀ id boot, ¬ s.DispatchedIn id boot := by
    rintro id boot ⟨env, hmem, -⟩
    rw [h.1] at hmem
    cases hmem
  have hrej : ∀ id boot, ¬ s.RejectedIn id boot := by
    rintro id boot ⟨r, hmem, -⟩
    rw [h.2] at hmem
    cases hmem
  cases e with
  | verify => exact fun _ _ _ hd => absurd hd (hdisp _ _)
  | decide => exact fun _ _ _ _ => ⟨fun hd => absurd hd (hdisp _ _), fun hr => absurd hr (hrej _ _)⟩
  | read | append | check | execute | retire | publish | unlink => trivial

theorem verifiesTruly_of_unanswered {crypto : Crypto} (s : MailboxState) (e : MailboxEvent)
    (h : unanswered s e = true) : s.VerifiesTruly crypto e := by
  cases e with
  | fast ev | slow ev =>
    intro job _
    cases ev with
    | verify | decide => exact jobVerifies_of_empty h job _
    | read | append | check | execute | retire | publish | unlink => trivial
  | authority | publishService | client | inject | claim | dropExpired | removeRequest | serve
    | takeSlow | cleanup | reopen | restart => trivial

/-- From the signature to the acceptance of the sample request. -/
def acceptedEvents : List MailboxEvent :=
  [.publishService, .client 0 (.sign sampleCall sampleRequest), .client 0 (.publish .ok),
    .claim sampleRequest.requestID, .serve sampleRequest.requestID true false, .fast (.read true),
    .fast .verify, .fast .decide, .fast (.append true)]

/-- The policy refuses the call, and the client reads so. -/
def deniedEvents : List MailboxEvent :=
  acceptedEvents ++ [.fast (.check true), .fast (.check false), .fast (.publish .ok),
    .fast (.unlink true), .client 0 .read]

/-- The response of the sample mailbox to the sample request. -/
def sampleResponse (status : Status) (code : String) (completedAt : Int) (branch : Branch) :
    Response where
  bootID := sampleBootID
  subjectID := "s1"
  keyID := sampleRequest.keyID
  generation := 1
  requestID := sampleRequest.requestID
  requestBodyDigest := ""
  status := status
  code := code
  body := []
  completedAt := completedAt
  receiptRequired := false
  branch := branch

theorem rejection_truthful_denied :
    ∃ t r, exec (MailboxState.step sampleCrypto sampleCodec) (.blank "s1" sampleAuthority)
        deniedEvents = some t ∧
      t.clients 0 = .returned sampleRequest (.response r) ∧ r.branch.preDispatch = true ∧
      ∀ env' ∈ t.dispatched, env'.requestID ≠ sampleRequest.requestID := by
  have hcond : Along (step sampleCrypto sampleCodec)
      (MailboxState.VerifiesTruly sampleCrypto) (.blank "s1" sampleAuthority) deniedEvents :=
    .of_check verifiesTruly_of_unanswered (by decide +kernel)
  have hread : (exec (step sampleCrypto sampleCodec) (.blank "s1" sampleAuthority)
      deniedEvents).map (fun t => t.clients 0) = some (.returned sampleRequest
        (.response (sampleResponse .denied "access_denied" 1000000 .accessDenied))) := by
    decide +kernel
  obtain ⟨t, ht, hj⟩ := Option.map_eq_some_iff.mp hread
  exact ⟨t, _, ht, hj, rfl,
    rejection_truthful sampleCrypto sampleCodec "s1" sampleAuthority deniedEvents hcond ht 0
      sampleRequest _ hj rfl⟩

/-! ## Dispatched, then rejected as expired

The request is accepted and dispatched, but its response cannot be written, so the request stays
claimed. Thirty-six seconds later the next pass takes it up again. `Verify` finds it expired before
it looks into the ledger, and this time the response can be written. -/

def expiredEvents : List MailboxEvent :=
  acceptedEvents ++ [.fast (.check true), .fast (.check true), .fast (.check true),
    .fast (.execute (.dispatch (some ⟨none, "", [], false⟩))), .fast (.publish .failed),
    .authority (.tick (1036 * 10 ^ 9)), .serve sampleRequest.requestID true false,
    .fast (.read true), .fast .verify, .fast (.publish .ok), .fast (.unlink true), .client 0 .read]

/-- **A dispatched request is reported as expired.** -/
theorem dispatched_then_rejected :
    ∃ t r, exec (MailboxState.step sampleCrypto sampleCodec) (.blank "s1" sampleAuthority)
        expiredEvents = some t ∧
      t.clients 0 = .returned sampleRequest (.response r) ∧ r.branch.preDispatch = true ∧
      r.status = .invalid ∧ r.code = "expired" ∧ sampleRequest ∈ t.dispatched := by
  have hread : (exec (step sampleCrypto sampleCodec) (.blank "s1" sampleAuthority)
      expiredEvents).map (fun t => (t.clients 0, t.dispatched)) = some (.returned sampleRequest
        (.response (sampleResponse .invalid "expired" 1036000 (.verifyError .expired))),
        [sampleRequest]) := by decide +kernel
  obtain ⟨t, ht, hj⟩ := Option.map_eq_some_iff.mp hread
  obtain ⟨hclient, hdispatched⟩ := Prod.mk.inj hj
  exact ⟨t, _, ht, hclient, rfl, rfl, rfl, by rw [hdispatched]; exact mem_singleton_self _⟩

/-! ## Rejected, then dispatched

The replay journal is full, so the request is rejected for lack of room. The directory sync fails
after the rename: the client reads the rejection, and the request stays claimed. The journal is
compacted, and the next pass accepts and dispatches the request. -/

def capacityEvents : List MailboxEvent :=
  [.publishService, .client 0 (.sign sampleCall sampleRequest), .client 0 (.publish .ok),
    .claim sampleRequest.requestID, .serve sampleRequest.requestID true false, .fast (.read true),
    .fast .verify, .fast .decide, .fast (.publish .unsynced), .client 0 .read,
    .authority .rotate, .authority (.compacted true),
    .serve sampleRequest.requestID true false, .fast (.read true), .fast .verify, .fast .decide,
    .fast (.append true), .fast (.check true), .fast (.check true), .fast (.check true),
    .fast (.execute (.dispatch (some ⟨none, "", [], false⟩)))]

/-- **A request reported as rejected is dispatched.** -/
theorem rejected_then_dispatched : ∃ t, exec (step sampleCrypto sampleCodec)
        (.blank "s1" (openedAuthority sampleBootID (1000 * 10 ^ 9) sampleRegistry ∅
          replayJournalLimit)) capacityEvents = some t ∧
      t.clients 0 = .returned sampleRequest (.response
        (sampleResponse .failed "authority_capacity" 1000000 (.verifyError .capacity))) ∧
      t.dispatched = [sampleRequest] := by
  decide +kernel

end AgentMultiplexer.SessionRpc
