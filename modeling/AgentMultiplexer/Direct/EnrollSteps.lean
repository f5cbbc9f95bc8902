import AgentMultiplexer.Direct.CodeEdits
import AgentMultiplexer.Theory.Transition

set_option autoImplicit false

/-! # What a step of the enrollment store does

A step either leaves only worn contents, or adds one thing: a policy, a code by hand, a code for a
relayed request, a challenge or a grant. `Change` says which, with everything the operation had
checked, and where the new content may be: when its commit is in place, every content the file may
have is a worn copy of it. -/

namespace AgentMultiplexer.Direct.Enroll

open AList List EnrollState Store Option

/-! ## Contents -/

/-- The process works on this store, or the file may have this content. -/
def EnrollState.MayHold (s : EnrollState) (st : Store) : Prop :=
  (∃ p, s.process = some p ∧ p.store = st) ∨ st ∈ s.disk

theorem EnrollState.MayHold.running {s : EnrollState} {p : Process} (h : s.process = some p) :
    s.MayHold p.store := .inl ⟨p, h, rfl⟩

/-- Every content of the next state is a worn copy of `N`, or was on the disk already, which only
    happens if the commit is not known to be in place. -/
def Lands (now : Int) (N : Store) (durable : Bool) (disk : List Store) (v : Live) : Prop :=
  ∀ X, X = v.process.store ∨ X ∈ v.disk → Worn now N X ∨ (durable = false ∧ X ∈ disk)

section Commit

variable {now : Int} {v : Live} {st : Store} {disk : List Store} {q : Process}

theorem Lands.ok (h : Worn now st q.store) : Lands now st true disk ⟨q, [st]⟩ := by
  rintro X (rfl | hX)
  · exact .inl h
  · rw [mem_singleton.mp hX]
    exact .inl (.refl now st)

theorem Lands.ambiguous (h : Worn now st q.store) : Lands now st false disk ⟨q, st :: disk⟩ := by
  rintro X (rfl | hX)
  · exact .inl h
  obtain rfl | hX := mem_cons.mp hX
  · exact .inl (.refl now X)
  · exact .inr ⟨rfl, hX⟩

end Commit

/-! ## Changes -/

/-- The history a step leaves alone; a redemption that fails draws a client all the same. -/
structure SameLogs (s s' : EnrollState) : Prop where
  minted : s'.minted = s.minted
  issued : s'.issued = s.issued
  enrolled : s'.enrolled = s.enrolled
  sets : s'.sets = s.sets
  created : s'.created = s.created ∨
    ∃ id code, s.Unused id ∧ s'.created = (id, code) :: s.created

theorem SameLogs.moved (s : EnrollState) (v : Live) : SameLogs s (s.moved v) :=
  ⟨rfl, rfl, rfl, rfl, .inl rfl⟩

/-- The entry a new code for an issue key leaves. -/
def issueOf (call : IssueCall) (c : CloudPolicy) : Issue :=
  ⟨call.req.issueKey, call.code, c.generation, c.maxPerHour, call.now, call.now + cloudCodeTTL⟩

/-- What a step at this time can do. -/
inductive Change (crypto : Crypto) (now : Int) (s : EnrollState) (e : EnrollEvent)
    (s' : EnrollState) : Prop
  | worn (logs : SameLogs s s')
      (contents : ∀ X, s'.MayHold X → ∃ st, s.MayHold st ∧ Worn now st X)
  | enabled {st : Store} {req : PolicyRequest} {policy : CloudPolicy} {v : Live}
      (running : s.MayHold st) (logs : SameLogs s s')
      (policy_eq : normalizePolicy req (st.cloudGen + 1)
        ((st.cloud.map CloudPolicy.issued).getD []) = .ok policy)
      (next : s'.process = some v.process ∧ s'.disk = v.disk) (durable : Bool)
      (lands : Lands now { st with cloud := some policy } durable s.disk v)
  | manual {st pruned : Store} {code : String} {r : CodeRecord} {v : Live}
      (running : s.MayHold st) (worn : Worn now st pruned) (undrawn : s.Undrawn code)
      (fresh : pruned.codes.lookup (crypto.token.hash code) = none)
      (origin : r.cloud = false ∧ r.ticket = false)
      (logs : s'.minted = ⟨code, r⟩ :: s.minted ∧ s'.issued = s.issued ∧
        s'.enrolled = s.enrolled ∧ s'.sets = s.sets ∧ s'.created = s.created)
      (next : s'.process = some v.process ∧ s'.disk = v.disk) (durable : Bool)
      (lands : Lands now
        { pruned with codes := pruned.codes.insert (crypto.token.hash code) r } durable s.disk v)
  | issued {st pruned : Store} {c c' : CloudPolicy} {req : IssueRequest} {ticket : Bool}
      {call : IssueCall} {v : Live}
      (running : s.MayHold st) (policy : st.cloud = some c) (clock : now = call.now)
      (admitted : call.req.labelled.admitted c = .ok (req, ticket))
      (fresh_key : st.issues.lookup (crypto.token.hash req.issueKey) = none)
      (capacity : st.cloudOutstanding now < c.maxOutstanding)
      (rate : Store.issuedSince c.issued now < c.maxPerHour)
      (worn : Worn now st pruned)
      (pruned_policy : pruned.cloud = some c' ∧
        c' = { c with issued := c.issued.filter fun t => now - cloudRateWindow < t })
      (undrawn : s.Undrawn call.code)
      (fresh : pruned.codes.lookup (crypto.token.hash call.code) = none)
      (durable : Bool)
      (logs : s'.minted = ⟨call.code, cloudRecord req ticket c.generation
          (crypto.token.hash req.issueKey) now⟩ :: s.minted ∧
        s'.issued = (if durable then [issueOf call c] else []) ++ s.issued ∧
        s'.enrolled = s.enrolled ∧ s'.sets = s.sets ∧ s'.created = s.created)
      (next : s'.process = some v.process ∧ s'.disk = v.disk)
      (lands : Lands now (pruned.mint c' req ticket (crypto.token.hash call.code)
        (crypto.token.hash req.issueKey) (crypto.reqHash req.hashed) call.code now)
        durable s.disk v)
  | claimed {st : Store} {code challenge : String} {r : CodeRecord} {v : Live}
      (running : s.MayHold st) (record : st.codes.lookup (crypto.token.hash code) = some r)
      (unclaimed : r.ticket = true ∧ r.challenge = "") (challenge_ne : challenge ≠ "")
      (durable : Bool)
      (event : durable = false →
        ∃ method t, e = .claimTicket code challenge method t .ambiguous)
      (logs : s'.minted = s.minted ∧ s'.issued = s.issued ∧ s'.enrolled = s.enrolled ∧
        s'.sets = (code, challenge) :: s.sets ∧ s'.created = s.created)
      (next : s'.process = some v.process ∧ s'.disk = v.disk)
      (lands : Lands now (st.claim (crypto.token.hash code) r challenge) durable s.disk v)
  | redeemed {st : Store} {r : CodeRecord} {call : RedeemCall} {v : Live}
      (running : s.MayHold st) (record : st.codes.lookup (crypto.token.hash call.code) = some r)
      (free : r.consumedAt = 0) (clock : now = call.now)
      (accepted : st.checkVerifier crypto r call.verifier = .accept)
      (unused : s.Unused call.clientID) (durable : Bool)
      (logs : s'.minted = s.minted ∧ s'.issued = s.issued ∧ s'.sets = s.sets ∧
        s'.created = (call.clientID, call.code) :: s.created ∧
        s'.enrolled = (if durable then
          [⟨call.code, call.clientID, call.verifier, r, st.cloud, r.grant⟩] else []) ++ s.enrolled)
      (next : s'.process = some v.process ∧ s'.disk = v.disk)
      (lands : Lands now (st.exchange (crypto.token.hash call.code) r call.clientID call.now)
        durable s.disk v)

/-- Every code of a content was drawn. -/
def EnrollState.Drawn (crypto : Crypto) (s : EnrollState) : Prop :=
  ∀ st, s.MayHold st → ∀ k r, st.codes.lookup k = some r →
    ∃ m ∈ s.minted, crypto.token.hash m.code = k

variable {code : String}

theorem EnrollState.Drawn.fresh {crypto : Crypto} {s : EnrollState} (h : s.Drawn crypto)
    {st : Store} (hst : s.MayHold st) (hcode : s.Undrawn code) :
    st.codes.lookup (crypto.token.hash code) = none := by
  cases hl : st.codes.lookup (crypto.token.hash code) with
  | none => rfl
  | some r =>
    obtain ⟨m, hm, heq⟩ := h st hst _ r hl
    exact absurd (mem_map.mpr ⟨m, hm, crypto.token.injective heq⟩) hcode

section Steps

variable {crypto : Crypto} {s : EnrollState} {p : Process} {e : EnrollEvent} {now : Int}

variable {s' : EnrollState} {v : Live}

theorem Change.moved (hp : s.process = some p)
    (hstore : Worn now p.store v.process.store)
    (hdisk : ∀ X ∈ v.disk, X ∈ s.disk ∨ Worn now p.store X)
    (hlogs : SameLogs s s') (hnext : s'.process = some v.process ∧ s'.disk = v.disk) :
    Change crypto now s e s' := by
  refine .worn hlogs fun X hX => ?_
  obtain ⟨q, hq, rfl⟩ | hX := hX
  · rw [hnext.1, some.injEq] at hq
    exact ⟨p.store, .running hp, hq ▸ hstore⟩
  · rw [hnext.2] at hX
    obtain hold | hnew := hdisk X hX
    · exact ⟨X, .inr hold, .refl now X⟩
    · exact ⟨p.store, .running hp, hnew⟩

theorem Change.unmoved (hp : s.process = some p) (hlogs : SameLogs s s')
    (hnext : s'.process = some p ∧ s'.disk = s.disk) : Change crypto now s e s' :=
  .moved (v := ⟨p, s.disk⟩) hp (.refl now _) (fun _ hX => .inl hX) hlogs hnext

theorem change_commit (hp : s.process = some p) {st kept undone unsure : Store}
    (hst : Worn now p.store st) (hkept : Worn now p.store kept) (hundone : Worn now p.store undone)
    (hunsure : Worn now p.store unsure) (c : Commit) (hlogs : SameLogs s s')
    (hnext : s'.process = some (Live.commit ⟨p, s.disk⟩ st kept undone unsure c).process ∧
      s'.disk = (Live.commit ⟨p, s.disk⟩ st kept undone unsure c).disk) :
    Change crypto now s e s' := by
  cases c with
  | ok =>
    exact .moved hp hkept (forall_mem_singleton.mpr (.inr hst)) hlogs hnext
  | notCommitted => exact .moved hp hundone (fun _ hX => .inl hX) hlogs hnext
  | ambiguous =>
    exact .moved hp hunsure (forall_mem_cons.mpr ⟨.inr hst, fun _ => .inl⟩) hlogs hnext

/-! ## Codes by hand -/

theorem mintedIn_none
    (h : v.process.store.codes.lookup (crypto.token.hash code) = none) :
    s.mintedIn crypto v code = s := by
  simp only [mintedIn, h]

theorem mintedIn_some {r : CodeRecord}
    (h : v.process.store.codes.lookup (crypto.token.hash code) = some r) :
    s.mintedIn crypto v code =
      { s with minted := ⟨code, { r with consumedAt := 0 }⟩ :: s.minted } := by
  simp only [mintedIn, h]

theorem change_newCode (hdrawn : s.Drawn crypto) (hp : s.process = some p) {call : NewCodeCall}
    (hcode : s.Undrawn call.code) :
    Change crypto call.now s e (s.newCode crypto ⟨p, s.disk⟩ call) := by
  have hnone := hdrawn.fresh (.running hp) hcode
  have hsame : Change crypto call.now s e
      ((s.moved ⟨p, s.disk⟩).mintedIn crypto ⟨p, s.disk⟩ call.code) := by
    rw [mintedIn_none hnone]
    exact .unmoved hp (.moved s _) ⟨rfl, rfl⟩
  unfold newCode
  generalize hcall : Live.newCode crypto ⟨p, s.disk⟩ call = result
  unfold Live.newCode at hcall
  dsimp only at hcall
  generalize (if call.ttl = 0 then defaultCodeTTL * 10 ^ 9 else call.ttl) = ttl at hcall
  split at hcall
  next => exact hcall ▸ hsame
  split at hcall
  next => exact hcall ▸ hsame
  next perms _ =>
  split at hcall
  next => exact hcall ▸ hsame
  next resource _ =>
  split at hcall
  next => exact hcall ▸ hsame
  have hprune : Worn call.now p.store (p.store.prune call.leased call.now) :=
    worn_prune call.leased
  have hfresh := hprune.decay.codes_none hnone
  cases hcall
  cases call.commit with
  | ok =>
    rw [mintedIn_some (lookup_insert _)]
    exact .manual (.running hp) hprune hcode hfresh ⟨rfl, rfl⟩
      ⟨rfl, rfl, rfl, rfl, rfl⟩ ⟨rfl, rfl⟩ true (.ok (.refl _ _))
  | notCommitted =>
    rw [mintedIn_none (lookup_erase _ _)]
    exact .moved hp (hprune.trans (worn_eraseCode hfresh)) (fun _ hX => .inl hX)
      (.moved s _) ⟨rfl, rfl⟩
  | ambiguous =>
    rw [mintedIn_some (lookup_insert _)]
    refine .manual (.running hp) hprune hcode hfresh ⟨rfl, rfl⟩
      ⟨rfl, rfl, rfl, rfl, rfl⟩ ⟨rfl, rfl⟩ false (.ambiguous ?_)
    exact worn_consumeManual call.now (lookup_insert _) rfl

/-! ## The policy -/

theorem change_enableCloud (hp : s.process = some p) (req : PolicyRequest) (commit : Commit) :
    Change crypto now s e (s.moved (Live.enableCloud ⟨p, s.disk⟩ req commit).1) := by
  unfold Live.enableCloud
  dsimp only
  split
  next => exact .unmoved hp (.moved s _) ⟨rfl, rfl⟩
  next policy hpolicy =>
  split
  next => exact .unmoved hp (.moved s _) ⟨rfl, rfl⟩
  cases commit with
  | ok =>
    exact .enabled (.running hp) (.moved s _) hpolicy ⟨rfl, rfl⟩ true (.ok (.refl _ _))
  | notCommitted => exact .unmoved hp (.moved s _) ⟨rfl, rfl⟩
  | ambiguous =>
    exact .enabled (.running hp) (.moved s _) hpolicy ⟨rfl, rfl⟩ false (.ambiguous (.refl _ _))

variable {st : Store}

theorem change_commitKept (hp : s.process = some p) (hst : Worn now p.store st)
    (c : Commit) (hlogs : SameLogs s s')
    (hnext : s'.process = some (Live.commitKept ⟨p, s.disk⟩ st c).process ∧
      s'.disk = (Live.commitKept ⟨p, s.disk⟩ st c).disk) : Change crypto now s e s' := by
  exact change_commit hp hst hst hst hst c hlogs hnext

/-! ## Codes for a relayed request -/

theorem replay_ne_minted (st : Store) (c : CloudPolicy) (is : CloudIssue) (reqHash : String)
    (t : Int) (code : String) (exp : Int) : st.replay c is reqHash t ≠ .ok (.minted code exp) := by
  unfold replay
  by_cases hreq : is.reqHash ≠ reqHash
  · simp [hreq]
  rw [if_neg hreq]
  cases st.codes.lookup is.codeHash with
  | none => simp
  | some r =>
    dsimp only
    split_ifs <;> simp

theorem prune_cloud {c : CloudPolicy} (hc : st.cloud = some c) (leased : List String)
    (t : Int) : (st.prune leased t).cloud =
      some { c with issued := c.issued.filter fun u => t - cloudRateWindow < u } := by
  have htake : (st.takeReplays fun r => r.expiresAt ≤ t).cloud = some c := by
    rw [(takeReplays_rest _).2, hc]
  simp only [prune, pruneCloud, htake, map_some]

section Issue

variable {call : IssueCall} (hdrawn : s.Drawn crypto) (hp : s.process = some p)
  (hcode : s.Undrawn call.code)

include hdrawn hp hcode

/-- `IssueCloudCode` hands out no new code and changes at most what a prune does. -/
theorem change_unissued {answer : Except EnrollError Issued}
    (hcall : Live.issueCloudCode crypto ⟨p, s.disk⟩ call = (.set ⟨p, s.disk⟩ st, answer))
    (hanswer : ∀ code exp, answer ≠ .ok (.minted code exp)) (hworn : Worn call.now p.store st) :
    Change crypto call.now s e (s.issueCloudCode crypto ⟨p, s.disk⟩ call) := by
  have hnone := hdrawn.fresh (.running hp) hcode
  unfold issueCloudCode
  dsimp only
  rw [hcall, mintedIn_none (hworn.decay.codes_none hnone)]
  split
  next code exp hminted => exact absurd hminted (hanswer code exp)
  next => exact .moved hp hworn (fun _ hX => .inl hX) (.moved s _) ⟨rfl, rfl⟩

theorem change_issueCloudCode :
    Change crypto call.now s e (s.issueCloudCode crypto ⟨p, s.disk⟩ call) := by
  generalize hcall : Live.issueCloudCode crypto ⟨p, s.disk⟩ call = result
  have hrefused : ∀ {err}, (⟨p, s.disk⟩, .error err) = result →
      Change crypto call.now s e (s.issueCloudCode crypto ⟨p, s.disk⟩ call) := fun heq =>
    change_unissued hdrawn hp hcode (hcall.trans heq.symm) (by simp) (.refl _ _)
  have heq := hcall
  revert heq
  fun_cases Live.issueCloudCode crypto ⟨p, s.disk⟩ call with
  | case1 | case2 | case3 | case4 | case5 => exact hrefused
  | case6 =>
    intro heq
    exact change_unissued hdrawn hp hcode (hcall.trans heq.symm)
      (replay_ne_minted _ _ _ _ _) (.refl _ _)
  | case7 _ _ c hc _ req ticket hadm _ hkey =>
    intro heq
    dsimp only [Live.mint] at heq
    split at heq
    next => exact hrefused heq
    next hcap =>
    split at heq
    next => exact hrefused heq
    next hrate =>
    split at heq
    next =>
      exact change_unissued hdrawn hp hcode (hcall.trans heq.symm) (by simp)
        (worn_prune call.leased)
    rw [Nat.not_le] at hcap hrate
    have hnone := hdrawn.fresh (.running hp) hcode
    have hprune : Worn call.now p.store (p.store.prune call.leased call.now) :=
      worn_prune call.leased
    have hcloud := prune_cloud hc call.leased call.now
    have hfresh := hprune.decay.codes_none hnone
    unfold issueCloudCode
    dsimp only
    rw [hcall, ← heq]
    cases call.commit with
    | ok =>
      rw [mintedIn_some (lookup_insert _)]
      exact .issued (.running hp) hc rfl hadm hkey hcap hrate hprune ⟨hcloud, rfl⟩ hcode
        hfresh true ⟨rfl, rfl, rfl, rfl, rfl⟩ ⟨rfl, rfl⟩ (.ok (.refl _ _))
    | notCommitted =>
      rw [mintedIn_none (lookup_erase _ _)]
      refine .moved hp (hprune.trans ?_) (fun _ hX => .inl hX) (.moved s _) ⟨rfl, rfl⟩
      exact worn_cancelMint hcloud hfresh (hprune.decay.issues_none hkey)
    | ambiguous =>
      have hrecord := lookup_insert (a := crypto.token.hash call.code)
        (b := cloudRecord req ticket c.generation (crypto.token.hash req.issueKey) call.now)
        (p.store.prune call.leased call.now).codes
      have hissue := lookup_insert (a := crypto.token.hash req.issueKey)
        (b := (⟨crypto.reqHash req.hashed, crypto.token.hash call.code, call.code, call.now,
          call.now + cloudCodeTTL⟩ : CloudIssue)) (p.store.prune call.leased call.now).issues
      have hspent : ∀ {next : Store} {r : CodeRecord} {is : CloudIssue},
          next.codes.lookup (crypto.token.hash call.code) = some r →
          next.issues.lookup (crypto.token.hash req.issueKey) = some is →
          (next.unmint (crypto.token.hash call.code) (crypto.token.hash req.issueKey)
            call.now).codes.lookup (crypto.token.hash call.code) =
              some { r with consumedAt := call.now } := by
        intro next r is hr his
        rw [unmint_eq hr his, lookup_insert]
      rw [mintedIn_some (hspent hrecord hissue)]
      exact .issued (.running hp) hc rfl hadm hkey hcap hrate hprune ⟨hcloud, rfl⟩ hcode
        hfresh false ⟨rfl, rfl, rfl, rfl, rfl⟩ ⟨rfl, rfl⟩
        (.ambiguous (worn_unmint call.now hrecord rfl hissue))

end Issue

/-! ## Tickets -/

theorem ne_empty_of_validNonce {challenge : String} (h : validNonce challenge = true) :
    challenge ≠ "" := by
  rintro rfl
  revert h
  decide

theorem worn_unclaim {key challenge : String} {r : CodeRecord}
    (hr : st.codes.lookup key = some r) (hunset : r.challenge = "") :
    Worn now st ((st.claim key r challenge).claim key r "") := by
  have hcodes : ∀ k, ((st.claim key r challenge).claim key r "").codes.lookup k =
      st.codes.lookup k := by
    intro k
    simp only [claim, GoMap.lookup_insert_ite]
    split_ifs with hk
    · rw [hk, hr, ← hunset]
    · rfl
  refine ⟨.of_codes fun k r' h => ⟨r', by rw [← hcodes]; exact h, .refl r'⟩, fun h => ?_⟩
  exact h.of_kept fun k is his _ => ⟨his, fun r₁ hr₁ _ _ _ => by rw [hcodes, hr₁]⟩

theorem change_claimTicket (hp : s.process = some p) {challenge method : String} {t : Instant}
    {commit : Commit} (he : e = .claimTicket code challenge method t commit) :
    Change crypto t s e (s.claimTicket crypto ⟨p, s.disk⟩ code challenge method t commit) := by
  have hsame : Change crypto t s e (s.moved ⟨p, s.disk⟩) := .unmoved hp (.moved s _) ⟨rfl, rfl⟩
  unfold claimTicket
  fun_cases Live.claimTicket crypto ⟨p, s.disk⟩ code challenge method t commit with
  | case4 =>
    dsimp only
    split_ifs <;> exact .unmoved hp ⟨rfl, rfl, rfl, rfl, .inl rfl⟩ ⟨rfl, rfl⟩
  | case5 hform _ _ _ r c _ hr hlive hunset =>
    simp only [not_or, Bool.not_eq_true', Bool.not_eq_false] at hform hlive
    rw [not_not] at hunset
    have hne := ne_empty_of_validNonce hform.2.2
    cases commit with
    | ok =>
      exact .claimed (.running hp) hr ⟨hlive.1, hunset⟩ hne true (fun h => by cases h)
        ⟨rfl, rfl, rfl, rfl, rfl⟩ ⟨rfl, rfl⟩ (.ok (.refl _ _))
    | notCommitted =>
      exact .moved hp (worn_unclaim hr hunset) (fun _ hX => .inl hX) (.moved s _) ⟨rfl, rfl⟩
    | ambiguous =>
      exact .claimed (.running hp) hr ⟨hlive.1, hunset⟩ hne false (fun _ => ⟨method, t, he⟩)
        ⟨rfl, rfl, rfl, rfl, rfl⟩ ⟨rfl, rfl⟩ (.ambiguous (.refl _ _))
  | _ => exact hsame

/-! ## Redemptions -/

theorem worn_revokeNew {id : String} {g g' : EnrolledGrant} (hg : st.grants.lookup id = some g) :
    Worn now st { st with grants := st.grants.insert id g' } := by
  refine ⟨.of_grants fun k g₁ h => ?_, fun h => h.of_eq rfl rfl⟩
  rcases GoMap.lookup_insert_eq_some.mp h with ⟨rfl, -⟩ | ⟨-, h⟩
  · exact ⟨g, hg⟩
  · exact ⟨g₁, h⟩

theorem change_redeem (hp : s.process = some p) {call : RedeemCall}
    (hunused : s.Unused call.clientID) :
    Change crypto call.now s e (s.redeem crypto ⟨p, s.disk⟩ call) := by
  have hdrew : ∀ v : Live, SameLogs s
      { s.moved v with created := (call.clientID, call.code) :: s.created } :=
    fun v => ⟨rfl, rfl, rfl, rfl, .inr ⟨call.clientID, call.code, hunused, rfl⟩⟩
  have hsame : Change crypto call.now s e
      { s.moved ⟨p, s.disk⟩ with created := (call.clientID, call.code) :: s.created } :=
    .unmoved hp (hdrew _) ⟨rfl, rfl⟩
  unfold redeem
  fun_cases Live.redeem crypto ⟨p, s.disk⟩ call with
  | case5 => exact .unmoved hp (hdrew _) ⟨rfl, rfl⟩
  | case6 _ _ _ _ _ r hr =>
    exact change_commitKept hp (worn_spoil hr) call.commit (hdrew _) ⟨rfl, rfl⟩
  | case7 _ _ _ _ _ r hr hlive hverdict =>
    rw [not_or, not_not] at hlive
    obtain ⟨hfree, -⟩ := hlive
    cases call.commit with
    | ok =>
      exact .redeemed (.running hp) hr hfree rfl hverdict hunused true
        ⟨rfl, rfl, rfl, rfl, rfl⟩ ⟨rfl, rfl⟩ (.ok (worn_prune call.leased))
    | notCommitted =>
      exact .moved hp (worn_unexchange hr hfree) (fun _ hX => .inl hX) (hdrew _) ⟨rfl, rfl⟩
    | ambiguous =>
      refine .redeemed (.running hp) hr hfree rfl hverdict hunused false
        ⟨rfl, rfl, rfl, rfl, rfl⟩ ⟨rfl, rfl⟩ (.ambiguous (worn_revokeNew (g := r.grant) ?_))
      rw [exchange_grants, lookup_insert]
  | _ => exact hsame

/-! ## Identity, other operations and loads -/

theorem change_resetIdentity (hp : s.process = some p) (t : Instant) (commit : Commit)
    (saved : Bool) :
    Change crypto t s e (s.moved (Live.resetIdentity ⟨p, s.disk⟩ t commit saved)) := by
  have hworn : Worn t p.store (p.store.revokeAll t) := worn_revokeAll
  have hstore : (Live.resetIdentity ⟨p, s.disk⟩ t commit saved).process.store =
      p.store.revokeAll t := by
    unfold Live.resetIdentity
    split_ifs <;> cases commit <;> rfl
  have hdisk : (Live.resetIdentity ⟨p, s.disk⟩ t commit saved).disk =
      (Live.commitKept ⟨p, s.disk⟩ (p.store.revokeAll t) commit).disk := by
    unfold Live.resetIdentity
    split_ifs <;> rfl
  refine .moved hp (hstore ▸ hworn) (fun X hX => ?_) (.moved s _) ⟨rfl, rfl⟩
  rw [hdisk] at hX
  cases commit with
  | ok => exact .inr (mem_singleton.mp hX ▸ hworn)
  | notCommitted => exact .inl hX
  | ambiguous =>
    obtain rfl | hX := mem_cons.mp hX
    · exact .inr hworn
    · exact .inl hX

theorem change_otherOperation (hp : s.process = some p) (first later : List String) (prunes : Bool)
    (leased : List String) (t : Instant) (commit : Commit) : Change crypto t s e
      (s.moved (.otherOperation ⟨p, s.disk⟩ first later prunes leased t commit)) := by
  have hfirst : Worn t p.store (p.store.revoke first t) := worn_revoke first
  refine change_commit hp hfirst ?_ hfirst (hfirst.trans (worn_revoke later)) commit
    (.moved s _) ⟨rfl, rfl⟩
  cases prunes with
  | true => exact hfirst.trans (worn_prune leased)
  | false => exact hfirst

theorem mem_saves {early : List Commit} {disk : List Store} {X : Store}
    (h : X ∈ (saves st early disk).1) : X = st ∨ X ∈ disk := by
  induction early generalizing disk with
  | nil => exact .inr h
  | cons c rest ih =>
    cases c with
    | ok =>
      obtain hst | hX := ih h
      · exact .inl hst
      · exact .inl (mem_singleton.mp hX)
    | notCommitted => exact .inr h
    | ambiguous => exact mem_cons.mp h

theorem change_stopped (hlogs : SameLogs s s') (hp : s'.process = none)
    (hdisk : ∀ X ∈ s'.disk, ∃ st, s.MayHold st ∧ Worn now st X) : Change crypto now s e s' := by
  refine .worn hlogs fun X hX => ?_
  obtain ⟨q, hq, -⟩ | hX := hX
  · rw [hp] at hq
    cases hq
  · exact hdisk X hX

theorem change_load (hp : s.process = none) (hst : st ∈ s.disk) (early : List Commit)
    (changed : Bool) (t : Instant) (commit : Commit) :
    Change crypto t s e (s.load st early changed t commit) := by
  have hall : Worn t st (st.revokeAll t) := worn_revokeAll
  have hsaved : ∀ X ∈ (saves st early s.disk).1, ∃ st, s.MayHold st ∧ Worn t st X := fun X hX => by
    obtain rfl | hX := mem_saves hX
    · exact ⟨X, .inr hst, .refl _ _⟩
    · exact ⟨X, .inr hX, .refl _ _⟩
  fun_cases load with
  | case1 => exact change_stopped ⟨rfl, rfl, rfl, rfl, .inl rfl⟩ hp hsaved
  | case2 =>
    refine .worn ⟨rfl, rfl, rfl, rfl, .inl rfl⟩ fun X hX => ⟨st, .inr hst, ?_⟩
    obtain ⟨q, hq, rfl⟩ | hX := hX
    · cases hq
      exact hall
    · exact mem_singleton.mp hX ▸ hall
  | case3 => exact change_stopped ⟨rfl, rfl, rfl, rfl, .inl rfl⟩ hp hsaved
  | case4 =>
    exact change_stopped ⟨rfl, rfl, rfl, rfl, .inl rfl⟩ hp
      (forall_mem_cons.mpr ⟨⟨st, .inr hst, hall⟩, hsaved⟩)
  | case5 =>
    refine .worn ⟨rfl, rfl, rfl, rfl, .inl rfl⟩ fun X hX => ?_
    obtain ⟨q, hq, rfl⟩ | hX := hX
    · cases hq
      exact ⟨st, .inr hst, .refl _ _⟩
    · exact hsaved X hX

/-! ## Every step -/

theorem Change.setClock (h : Change crypto now s e s') (t : Int) :
    Change crypto now s e { s' with clock := t } := by
  cases h with
  | worn logs contents =>
    exact .worn { logs with } contents
  | enabled running logs policy_eq next durable lands =>
    exact .enabled running { logs with } policy_eq next durable lands
  | manual running worn undrawn fresh origin logs next durable lands =>
    exact .manual running worn undrawn fresh origin logs next durable lands
  | issued running policy clock admitted fresh_key capacity rate worn pruned_policy undrawn fresh
      durable logs next lands =>
      exact .issued running policy clock admitted fresh_key capacity rate worn pruned_policy
        undrawn fresh durable logs next lands
  | claimed running record unclaimed challenge_ne durable event logs next lands =>
    exact .claimed running record unclaimed challenge_ne durable event logs next lands
  | redeemed running record free clock accepted unused durable logs next lands =>
    exact .redeemed running record free clock accepted unused durable logs next lands

def EnrollEvent.clockAfter (e : EnrollEvent) (clock : Int) : Int :=
  (e.now?.map Subtype.val).getD clock

theorem change_operate (hdrawn : s.Drawn crypto) (hp : s.process = some p)
    (h : s.operate crypto ⟨p, s.disk⟩ e = some s') :
    Change crypto (e.clockAfter s.clock) s e s' := by
  revert h
  fun_cases s.operate crypto ⟨p, s.disk⟩ e with
  | case1 call hcode =>
    rintro ⟨⟩
    exact change_newCode hdrawn hp hcode
  | case3 req t commit =>
    rintro ⟨⟩
    exact change_enableCloud hp req commit
  | case4 t commit =>
    rintro ⟨⟩
    exact change_commitKept hp worn_disableCloud commit (.moved s _) ⟨rfl, rfl⟩
  | case5 call hcode =>
    rintro ⟨⟩
    exact change_issueCloudCode hdrawn hp hcode
  | case7 =>
    rintro ⟨⟩
    exact change_claimTicket hp rfl
  | case8 call hunused =>
    rintro ⟨⟩
    exact change_redeem hp hunused
  | case10 t commit saved =>
    rintro ⟨⟩
    exact change_resetIdentity hp t commit saved
  | case11 first later prunes leased t commit =>
    rintro ⟨⟩
    exact change_otherOperation hp first later prunes leased t commit
  | case12 =>
    rintro ⟨⟩
    exact change_stopped ⟨rfl, rfl, rfl, rfl, .inl rfl⟩ rfl fun X hX => ⟨X, .inr hX, .refl _ _⟩
  | case13 content =>
    intro h
    obtain ⟨st, hst, rfl⟩ := map_eq_some_iff.mp h
    exact change_stopped ⟨rfl, rfl, rfl, rfl, .inl rfl⟩ rfl
      (forall_mem_singleton.mpr ⟨st, .inr (mem_of_getElem? hst), .refl _ _⟩)
  | _ => rintro ⟨⟩

theorem change_start (hp : s.process = none) (h : s.start e = some s') :
    Change crypto (e.clockAfter s.clock) s e s' := by
  cases e with
  | load early changed t commit =>
    rw [start, map_eq_some_iff] at h
    obtain ⟨st, hst, rfl⟩ := h
    exact change_load hp (mem_of_head? hst) early changed t commit
  | powerLoss content =>
    rw [start, map_eq_some_iff] at h
    obtain ⟨st, hst, rfl⟩ := h
    exact change_stopped ⟨rfl, rfl, rfl, rfl, .inl rfl⟩ hp
      (forall_mem_singleton.mpr ⟨st, .inr (mem_of_getElem? hst), .refl _ _⟩)
  | newCode | enableCloud | disableCloud | issueCloudCode | claimTicket | redeem
  | resetIdentity | otherOperation | exit => cases h

theorem step_change (hdrawn : s.Drawn crypto) (h : s.step crypto e = some s') :
    Change crypto (e.clockAfter s.clock) s e s' ∧ s'.clock = e.clockAfter s.clock := by
  rw [step, map_eq_some_iff] at h
  obtain ⟨next, hnext, rfl⟩ := h
  refine ⟨.setClock ?_ _, rfl⟩
  cases hp : s.process with
  | some p =>
    rw [hp] at hnext
    exact change_operate hdrawn hp hnext
  | none =>
    rw [hp] at hnext
    exact change_start hp hnext

end Steps

end AgentMultiplexer.Direct.Enroll
