import AgentMultiplexer.Direct.EnrollSteps

set_option autoImplicit false

/-! # Enrollment codes are used once, within the live policy

A redemption relies on what was fixed when the code was minted. The invariant says it of every
content the file may have: each record descends from its mint, a cloud record is of no later
generation than the policy and lies inside the ceiling if it is of the same one, and the code of a
grant is used up. A code that was answered with tokens is used up in every content at once, because
its commit was in place.

A ticket's challenge has no such barrier when the commit of the claim is not known to be in place:
the retry of the claim finds the challenge set and succeeds, and a loss of power then brings back
the ticket without it. -/

namespace AgentMultiplexer.Direct.Enroll

open AList GoMap List Transition Store

/-! ## Records and their mints -/

/-- The record comes from this mint. -/
structure Descends (sets : List (String × String)) (m : Mint) (r : CodeRecord) : Prop where
  cloud : r.cloud = m.record.cloud
  policyGen : r.policyGen = m.record.policyGen
  ticket : r.ticket = m.record.ticket
  challenge : r.ticket = false → r.challenge = m.record.challenge
  claimed : r.ticket = true → r.challenge ≠ "" → (m.code, r.challenge) ∈ sets

variable {r : CodeRecord} {m : Mint}

theorem Descends.ages {sets : List (String × String)} {r' : CodeRecord}
    (h : Descends sets m r) (hages : Ages r r') : Descends sets m r' where
  cloud := hages.cloud.trans h.cloud
  policyGen := hages.policyGen.trans h.policyGen
  ticket := hages.ticket.trans h.ticket
  challenge hplain := hages.challenge.trans (h.challenge (hages.ticket ▸ hplain))
  claimed hticket hne := by
    rw [hages.challenge] at hne ⊢
    exact h.claimed (hages.ticket ▸ hticket) hne

theorem Descends.mono {sets sets' : List (String × String)}
    (h : Descends sets m r) (hsub : ∀ q ∈ sets, q ∈ sets') : Descends sets' m r :=
  { h with claimed := fun hticket hne => hsub _ (h.claimed hticket hne) }

/-- The scope lies inside the policy's ceiling. -/
def Inside (perms : List String) (resource : ResourceScope) (c : CloudPolicy) : Prop :=
  (∀ p ∈ perms, p ∈ c.perms) ∧ withinCeiling resource c.resource = true

/-- Cloud records are of no later generation than the policy, and inside the ceiling of their own. -/
def Store.Scoped (st : Store) : Prop :=
  ∀ k r, st.codes.lookup k = some r → r.cloud = true →
    r.policyGen ≤ st.cloudGen ∧
      ∀ c, st.cloud = some c → r.policyGen = c.generation → Inside r.perms r.resource c

/-- Every record under the key. -/
def Store.Every (st : Store) (key : String) (P : CodeRecord → Prop) : Prop :=
  ∀ r, st.codes.lookup key = some r → P r

variable {P : CodeRecord → Prop} {st : Store}

theorem Store.Every.decay {now : Int} {st' : Store} {key : String}
    (h : st.Every key P) (hP : ∀ r r', Ages r r' → P r → P r') (hd : Decay now st st') :
    st'.Every key P := by
  intro r' hr'
  obtain ⟨r, hr, hages⟩ := hd.codes key r' hr'
  exact hP r r' hages (h r hr)

theorem Store.Every.insert_ne {key key' : String}
    {codes : GoMap String CodeRecord} (h : st.Every key P)
    (hcodes : codes = st.codes.insert key' r) (hne : key ≠ key') :
    Store.Every { st with codes := codes } key P := by
  intro r₁ hr₁
  rw [hcodes, lookup_insert_ne hne] at hr₁
  exact h r₁ hr₁

/-- The record is used up. -/
def Spent (r : CodeRecord) : Prop := r.consumedAt ≠ 0

theorem Spent.ages {r' : CodeRecord} (hages : Ages r r') (h : Spent r) : Spent r' :=
  hages.spent h

theorem spent_exchange (st : Store) (key : String) (r : CodeRecord) (id : String) (t : Instant) :
    (st.exchange key r id t).Every key Spent := by
  intro r' hr'
  rw [exchange_codes, lookup_insert] at hr'
  cases hr'
  exact (Int.ne_of_lt t.2).symm

/-! ## One content -/

/-- What holds of every content, given the history. -/
structure Content (crypto : Crypto) (minted : List Mint) (created sets : List (String × String))
    (st : Store) : Prop where
  origin : ∀ k r, st.codes.lookup k = some r →
    ∃ m ∈ minted, crypto.token.hash m.code = k ∧ Descends sets m r
  scope : st.Scoped
  owner : ∀ id g, st.grants.lookup id = some g → ∃ code, (id, code) ∈ created ∧
    (∃ m ∈ minted, m.code = code) ∧ st.Every (crypto.token.hash code) Spent
  single : ∀ id id' g g' code, st.grants.lookup id = some g → st.grants.lookup id' = some g' →
    (id, code) ∈ created → (id', code) ∈ created → id = id'

namespace Content

variable {crypto : Crypto} {minted minted' : List Mint} {created sets sets' : List (String × String)}
  {st st' : Store} {now : Int}

theorem scope_decay (h : st.Scoped) (hd : Decay now st st') : st'.Scoped := by
  intro k r' hr' hcloud
  obtain ⟨r, hr, hages⟩ := hd.codes k r' hr'
  obtain ⟨hgen, hinside⟩ := h k r hr (hages.cloud ▸ hcloud)
  have hle := hd.cloudGen_le
  rw [hages.policyGen, hages.perms, hages.resource]
  refine ⟨hgen.trans hle, fun c' hc' heq => ?_⟩
  obtain ⟨c, hc, hpolicy⟩ := hd.policy_before hc'
  -- The generation of the record is at most the old one, so the policy is still the old one.
  have hold : r.policyGen ≤ c.generation := by simpa [cloudGen, hc] using hgen
  have hsame : c'.generation = c.generation := by
    have := hpolicy.generation
    omega
  obtain ⟨hperms, hresource, -⟩ := hpolicy.same hsame
  have := hinside c hc (by omega)
  rwa [Inside, ← hperms, ← hresource] at this

section

variable (h : Content crypto minted created sets st)

include h

theorem decay (hd : Decay now st st') : Content crypto minted created sets st' where
  origin k r' hr' := by
    obtain ⟨r, hr, hages⟩ := hd.codes k r' hr'
    obtain ⟨m, hm, hk, hdesc⟩ := h.origin k r hr
    exact ⟨m, hm, hk, hdesc.ages hages⟩
  scope := scope_decay h.scope hd
  owner id g' hg' := by
    obtain ⟨g, hg⟩ := hd.grants id g' hg'
    obtain ⟨code, hcode, hdrawn, hspent⟩ := h.owner id g hg
    exact ⟨code, hcode, hdrawn, hspent.decay (fun _ _ => .ages) hd⟩
  single id₁ id₂ g₁ g₂ code h₁ h₂ := by
    obtain ⟨_, hg₁⟩ := hd.grants id₁ g₁ h₁
    obtain ⟨_, hg₂⟩ := hd.grants id₂ g₂ h₂
    exact h.single id₁ id₂ _ _ code hg₁ hg₂

theorem mono (hm : ∀ m ∈ minted, m ∈ minted')
    (hs : ∀ q ∈ sets, q ∈ sets') : Content crypto minted' created sets' st := { h with
  origin := fun k r hr => by
    obtain ⟨m, hmem, hk, hdesc⟩ := h.origin k r hr
    exact ⟨m, hm m hmem, hk, hdesc.mono hs⟩
  owner := fun id g hg => by
    obtain ⟨code, hcode, ⟨m, hmem, heq⟩, hspent⟩ := h.owner id g hg
    exact ⟨code, hcode, ⟨m, hm m hmem, heq⟩, hspent⟩ }

/-- A client that was never drawn has no grant, so drawing it changes nothing. -/
theorem draw {id code : String}
    (hid : id ∉ created.map Prod.fst) : Content crypto minted ((id, code) :: created) sets st where
  origin := h.origin
  scope := h.scope
  owner id' g hg := by
    obtain ⟨code', hcode, hrest⟩ := h.owner id' g hg
    exact ⟨code', mem_cons_of_mem _ hcode, hrest⟩
  single id₁ id₂ g₁ g₂ code' h₁ h₂ hc₁ hc₂ := by
    have hold : ∀ {i : String} {g : EnrolledGrant}, st.grants.lookup i = some g →
        (i, code') ∈ (id, code) :: created → (i, code') ∈ created := by
      intro i g hg hmem
      obtain heq | hmem := mem_cons.mp hmem
      · obtain ⟨code₀, hcode₀, -⟩ := h.owner i g hg
        cases heq
        exact absurd (mem_map_of_mem hcode₀) hid
      · exact hmem
    exact h.single id₁ id₂ g₁ g₂ code' h₁ h₂ (hold h₁ hc₁) (hold h₂ hc₂)

theorem enable {policy : CloudPolicy} (hgen : policy.generation = st.cloudGen + 1) :
    Content crypto minted created sets { st with cloud := some policy } := { h with
  scope := fun k r hr hcloud => by
    have hle := (h.scope k r hr hcloud).1
    refine ⟨?_, fun c hc heq => ?_⟩
    · simp only [cloudGen, Option.map_some, Option.getD_some]
      omega
    · cases hc
      omega }

theorem add (hcode : m.code ∉ minted.map Mint.code) (hdesc : Descends sets m m.record)
    (hscope : m.record.cloud = true → m.record.policyGen ≤ st.cloudGen ∧ ∀ c, st.cloud = some c →
      m.record.policyGen = c.generation → Inside m.record.perms m.record.resource c) :
    Content crypto (m :: minted) created sets
      { st with codes := st.codes.insert (crypto.token.hash m.code) m.record } where
  origin := by
    refine forall_insert ⟨m, mem_cons_self, rfl, hdesc⟩ fun k r hr => ?_
    obtain ⟨m', hm', hrest⟩ := h.origin k r hr
    exact ⟨m', mem_cons_of_mem _ hm', hrest⟩
  scope := forall_insert hscope h.scope
  owner id g hg := by
    obtain ⟨code, hmem, ⟨m', hm', rfl⟩, hspent⟩ := h.owner id g hg
    refine ⟨m'.code, hmem, ⟨m', mem_cons_of_mem _ hm', rfl⟩, hspent.insert_ne rfl ?_⟩
    exact fun heq => hcode (crypto.token.injective heq ▸ mem_map_of_mem hm')
  single := h.single

/-- The policy counts a sample more, and the issue records change. -/
theorem sample {c : CloudPolicy} (c' : CloudPolicy)
    (hc : st.cloud = some c) (hgen : c'.generation = c.generation) (hperms : c'.perms = c.perms)
    (hresource : c'.resource = c.resource) (issues : GoMap String CloudIssue) :
    Content crypto minted created sets { st with issues := issues, cloud := some c' } := { h with
  scope := fun k r hr hcloud => by
    obtain ⟨hle, hinside⟩ := h.scope k r hr hcloud
    refine ⟨?_, fun c₁ hc₁ heq => ?_⟩
    · simpa [cloudGen, hc, hgen] using hle
    cases hc₁
    have := hinside c hc (heq.trans hgen)
    rwa [Inside, ← hperms, ← hresource] at this }

theorem claim {code challenge : String}
    (hr : st.codes.lookup (crypto.token.hash code) = some r) (hticket : r.ticket = true) :
    Content crypto minted created ((code, challenge) :: sets)
      (st.claim (crypto.token.hash code) r challenge) where
  origin := by
    refine forall_insert ?_ fun k r' hr' => ?_
    · obtain ⟨m, hm, hkey, hdesc⟩ := h.origin _ r hr
      obtain rfl := crypto.token.injective hkey
      refine ⟨m, hm, rfl, hdesc.cloud, hdesc.policyGen, hdesc.ticket, fun hplain => ?_,
        fun _ _ => mem_cons_self⟩
      rw [hticket] at hplain
      cases hplain
    · obtain ⟨m, hm, hkey, hdesc⟩ := h.origin k r' hr'
      exact ⟨m, hm, hkey, hdesc.mono fun _ => mem_cons_of_mem _⟩
  scope := forall_insert (h.scope _ r hr) h.scope
  owner id g hg := by
    obtain ⟨code', hmem, hdrawn, hspent⟩ := h.owner id g hg
    refine ⟨code', hmem, hdrawn, fun r' hr' => ?_⟩
    rcases lookup_insert_eq_some.mp hr' with ⟨hk, rfl⟩ | ⟨-, hr'⟩
    · exact hspent r (hk ▸ hr)
    · exact hspent r' hr'
  single := h.single

theorem exchange (hclients : (created.map Prod.fst).Nodup) {code id : String} {t : Instant}
    (hr : st.codes.lookup (crypto.token.hash code) = some r) (hfree : r.consumedAt = 0)
    (hid : id ∉ created.map Prod.fst) : Content crypto minted ((id, code) :: created) sets
      (st.exchange (crypto.token.hash code) r id t) := by
  have hbase : Content crypto minted ((id, code) :: created) sets
      { st.exchange (crypto.token.hash code) r id t with grants := st.grants } :=
    (h.draw hid).decay (@Store.decay_exchange id st t _ r t hr)
  have hgrant : ∀ {i : String} {g : EnrolledGrant},
      (st.exchange (crypto.token.hash code) r id t).grants.lookup i = some g →
      i = id ∨ st.grants.lookup i = some g := by
    intro i g hg
    rw [exchange_grants] at hg
    exact (lookup_insert_eq_some.mp hg).imp And.left And.right
  -- A grant that is already there was not made from this code, since the code is free.
  have hother : ∀ {i : String} {g : EnrolledGrant}, st.grants.lookup i = some g →
      (i, code) ∉ (id, code) :: created := by
    intro i g hg hmem
    obtain ⟨code₀, hcode₀, -, hused⟩ := h.owner i g hg
    obtain heq | hmem := mem_cons.mp hmem
    · cases heq
      exact hid (mem_map_of_mem hcode₀)
    · have hsame := inj_on_of_nodup_map hclients hcode₀ hmem rfl
      cases hsame
      exact hused r hr hfree
  refine ⟨hbase.origin, hbase.scope, fun i g hg => ?_, fun i i' g g' code' hg hg' hi hi' => ?_⟩
  · obtain rfl | hold := hgrant hg
    · obtain ⟨m, hm, hkey, -⟩ := h.origin _ r hr
      exact ⟨code, mem_cons_self, ⟨m, hm, crypto.token.injective hkey⟩, spent_exchange _ _ _ _ _⟩
    · exact hbase.owner i g hold
  obtain rfl | hold := hgrant hg
  · obtain rfl | hold' := hgrant hg'
    · rfl
    · obtain heq | hmem := mem_cons.mp hi
      · cases heq
        exact absurd hi' (hother hold')
      · exact absurd (mem_map_of_mem hmem) hid
  · obtain rfl | hold' := hgrant hg'
    · obtain heq | hmem := mem_cons.mp hi'
      · cases heq
        exact absurd hi (hother hold)
      · exact absurd (mem_map_of_mem hmem) hid
    · exact hbase.single i i' g g' code' hold hold' hi hi'

end

end Content

/-! ## What the operations checked -/

theorem challenge_of_ticket {req : IssueRequest} (h : req.ticket? = .ok true) :
    req.codeChallenge = "" := by
  revert h
  fun_cases IssueRequest.ticket? req with
  | case4 _ _ hgiven =>
    simp only [not_or, not_not] at hgiven
    exact fun _ => hgiven.1
  | _ => rintro ⟨⟩

/-- An admitted request lies inside the ceiling, and one for a ticket carries no challenge. -/
theorem inside_of_admitted {req req' : IssueRequest} {c : CloudPolicy} {ticket : Bool}
    (h : req.admitted c = .ok (req', ticket)) :
    Inside req'.perms req'.resource c ∧ (ticket = true → req'.codeChallenge = "") := by
  revert h
  fun_cases req.admitted c with
  | case8 _ _ ticket hticket perms _ hperms resource _ hwithin =>
    rintro ⟨⟩
    refine ⟨⟨?_, by simpa using hwithin⟩, fun hyes => ?_⟩
    · simpa using hperms
    · subst hyes
      exact challenge_of_ticket hticket
  | _ => rintro ⟨⟩

theorem generation_of_normalizePolicy {req : PolicyRequest} {generation : Nat} {issued : List Int}
    {policy : CloudPolicy} (h : normalizePolicy req generation issued = .ok policy) :
    policy.generation = generation ∧ policy.issued = issued := by
  revert h
  fun_cases normalizePolicy with
  | case4 =>
    rintro ⟨⟩
    exact ⟨rfl, rfl⟩
  | _ => rintro ⟨⟩

variable {crypto : Crypto}

/-- What an accepted redemption of a cloud code found. -/
theorem checkVerifier_accept {verifier : String}
    (h : st.checkVerifier crypto r verifier = .accept) (hcloud : r.cloud = true) :
    (r.ticket = true → r.challenge ≠ "") ∧ crypto.s256 verifier = r.challenge ∧
      ∃ c, st.cloud = some c ∧ c.enabled = true ∧ c.generation = r.policyGen := by
  unfold checkVerifier at h
  rw [hcloud] at h
  simp only [Bool.not_true, Bool.false_eq_true, if_false] at h
  split_ifs at h with hunclaimed _ hok
  obtain ⟨hs256, hpolicy⟩ := hok
  refine ⟨fun hticket hempty => hunclaimed ⟨hticket, hempty⟩, hs256, ?_⟩
  obtain ⟨c, hc, hlive⟩ := (Option.any_eq_true _ _).mp hpolicy
  simp only [Bool.and_eq_true, decide_eq_true_eq] at hlive
  exact ⟨c, hc, hlive⟩

/-! ## Every content -/

/-- What a redemption that was answered with tokens found. -/
structure Lawful (crypto : Crypto) (minted : List Mint) (sets : List (String × String))
    (en : Enrolled) : Prop where
  origin : ∃ m ∈ minted, m.code = en.code ∧ Descends sets m en.record
  grant : en.grant = en.record.grant
  policy : en.record.cloud = true → ∃ c, en.policy = some c ∧ c.enabled = true ∧
    c.generation = en.record.policyGen ∧ crypto.s256 en.verifier = en.record.challenge ∧
    Inside en.record.perms en.record.resource c
  challenge_ne : en.record.ticket = true → en.record.challenge ≠ ""
  claimed : en.record.ticket = true → (en.code, en.record.challenge) ∈ sets

theorem Lawful.mono {minted minted' : List Mint}
    {sets sets' : List (String × String)} {en : Enrolled} (h : Lawful crypto minted sets en)
    (hm : ∀ m ∈ minted, m ∈ minted') (hs : ∀ q ∈ sets, q ∈ sets') :
    Lawful crypto minted' sets' en := { h with
  origin := by
    obtain ⟨m, hmem, heq, hdesc⟩ := h.origin
    exact ⟨m, hm m hmem, heq, hdesc.mono hs⟩
  claimed := fun hticket => hs _ (h.claimed hticket) }

/-- The invariant of the codes, over every content the file may have. -/
structure UseInv (crypto : Crypto) (s : EnrollState) : Prop where
  content : ∀ st, s.MayHold st → Content crypto s.minted s.created s.sets st
  codes : (s.minted.map Mint.code).Nodup
  tickets : ∀ m ∈ s.minted, m.record.ticket = true → m.record.cloud = true
  clients : (s.created.map Prod.fst).Nodup
  spent : ∀ en ∈ s.enrolled, ∀ st, s.MayHold st → st.Every (crypto.token.hash en.code) Spent
  lawful : ∀ en ∈ s.enrolled, Lawful crypto s.minted s.sets en
  distinct : (s.enrolled.map Enrolled.code).Nodup

theorem UseInv.drawn {s : EnrollState} (h : UseInv crypto s) : s.Drawn crypto :=
  fun st hst k r hr => by
    obtain ⟨m, hm, hk, -⟩ := (h.content st hst).origin k r hr
    exact ⟨m, hm, hk⟩

theorem mayHold_next {s' : EnrollState} {v : Live} {X : Store}
    (hnext : s'.process = some v.process ∧ s'.disk = v.disk) (h : s'.MayHold X) :
    X = v.process.store ∨ X ∈ v.disk := by
  obtain ⟨q, hq, rfl⟩ | hX := h
  · rw [hnext.1, Option.some.injEq] at hq
    exact .inl (by rw [hq])
  · exact .inr (hnext.2 ▸ hX)

section Change

variable {crypto : Crypto} {now : Int} {s s' : EnrollState} {e : EnrollEvent}

/-- What holds of every content, and lasts as records age and tickets are claimed, holds on, for a
    code that was drawn. -/
theorem every_change {code : String} (hages : ∀ r r', Ages r r' → P r → P r')
    (hclaim : ∀ r challenge, r.challenge = "" → P r → P { r with challenge := challenge })
    (hdrawn : ∃ m ∈ s.minted, m.code = code)
    (h : ∀ st, s.MayHold st → st.Every (crypto.token.hash code) P)
    (hchange : Change crypto now s e s') :
    ∀ X, s'.MayHold X → X.Every (crypto.token.hash code) P := by
  have hfresh : ∀ {code' : String}, s.Undrawn code' →
      crypto.token.hash code ≠ crypto.token.hash code' := by
    intro code' hun heq
    obtain ⟨m, hm, rfl⟩ := hdrawn
    exact hun (crypto.token.injective heq ▸ mem_map_of_mem hm)
  have hland : ∀ {N : Store} {durable : Bool} {v : Live}, Lands now N durable s.disk v →
      s'.process = some v.process ∧ s'.disk = v.disk → N.Every (crypto.token.hash code) P →
      ∀ X, s'.MayHold X → X.Every (crypto.token.hash code) P := by
    intro N durable v hlands hnext hN X hX
    obtain hworn | ⟨-, hold⟩ := hlands X (mayHold_next hnext hX)
    · exact hN.decay hages hworn.decay
    · exact h X (.inr hold)
  cases hchange with
  | worn logs contents =>
    intro X hX
    obtain ⟨st, hst, hworn⟩ := contents X hX
    exact (h st hst).decay hages hworn.decay
  | @enabled st _ _ _ running _ _ next _ lands => exact hland lands next (h st running)
  | @manual st pruned _ _ _ running worn undrawn _ _ _ next _ lands =>
    exact hland lands next (((h st running).decay hages worn.decay).insert_ne rfl (hfresh undrawn))
  | @issued st pruned _ _ _ _ _ _ running _ _ _ _ _ _ worn _ undrawn _ _ _ next lands =>
    refine hland lands next fun r hr => ?_
    exact (((h st running).decay hages worn.decay).insert_ne rfl (hfresh undrawn)) r hr
  | @claimed st code' challenge r _ running record unclaimed _ _ _ _ next lands =>
    refine hland lands next fun r' hr' => ?_
    rcases lookup_insert_eq_some.mp hr' with ⟨hk, rfl⟩ | ⟨-, hr'⟩
    · exact hclaim r challenge unclaimed.2 (h st running r (hk ▸ record))
    · exact h st running r' hr'
  | @redeemed st r call _ running record _ _ _ _ _ _ next lands =>
    refine hland lands next fun r' hr' => ?_
    exact ((h st running).decay hages
      (@Store.decay_exchange call.clientID st now _ r call.now record)) r' hr'

section

variable (h : UseInv crypto s)

include h

section

variable (hchange : Change crypto now s e s')

include hchange

theorem content_change : ∀ X, s'.MayHold X → Content crypto s'.minted s'.created s'.sets X := by
  have hland : ∀ {N : Store} {durable : Bool} {v : Live}, Lands now N durable s.disk v →
      s'.process = some v.process ∧ s'.disk = v.disk →
      Content crypto s'.minted s'.created s'.sets N →
      (∀ X, Content crypto s.minted s.created s.sets X →
        Content crypto s'.minted s'.created s'.sets X) →
      ∀ X, s'.MayHold X → Content crypto s'.minted s'.created s'.sets X := by
    intro N durable v hlands hnext hN hkeep X hX
    obtain hworn | ⟨-, hold⟩ := hlands X (mayHold_next hnext hX)
    · exact hN.decay hworn.decay
    · exact hkeep X (h.content X (.inr hold))
  have hsame : SameLogs s s' → ∀ X, Content crypto s.minted s.created s.sets X →
      Content crypto s'.minted s'.created s'.sets X := by
    intro logs X hX
    rw [logs.minted, logs.sets]
    obtain heq | ⟨id, code, hid, heq⟩ := logs.created
    · rw [heq]
      exact hX
    · rw [heq]
      exact hX.draw hid
  cases hchange with
  | worn logs contents =>
    intro X hX
    obtain ⟨st, hst, hworn⟩ := contents X hX
    exact hsame logs X ((h.content st hst).decay hworn.decay)
  | @enabled st _ policy _ running logs policy_eq next _ lands =>
    refine hland lands next (hsame logs _ ?_) (hsame logs)
    exact (h.content st running).enable (generation_of_normalizePolicy policy_eq).1
  | @manual st pruned code r _ running worn undrawn _ origin logs next _ lands =>
    obtain ⟨hminted, -, -, hsets, hcreated⟩ := logs
    rw [hminted, hsets, hcreated] at hland ⊢
    refine hland lands next ?_ fun X hX => hX.mono (fun _ => mem_cons_of_mem _) fun _ => id
    refine ((h.content st running).decay worn.decay).add (m := ⟨code, r⟩) undrawn
      ⟨rfl, rfl, rfl, fun _ => rfl, fun hticket => ?_⟩ fun hcloud => ?_
    · rw [origin.2] at hticket
      cases hticket
    · rw [origin.1] at hcloud
      cases hcloud
  | @issued st pruned c c' req ticket call _ running policy _ admitted _ _ _ worn pruned_policy
      undrawn _ _ logs next lands =>
      obtain ⟨hminted, -, -, hsets, hcreated⟩ := logs
      rw [hminted, hsets, hcreated] at hland ⊢
      refine hland lands next ?_ fun X hX => hX.mono (fun _ => mem_cons_of_mem _) fun _ => id
      obtain ⟨hinside, hplain⟩ := inside_of_admitted admitted
      obtain ⟨hpruned, rfl⟩ := pruned_policy
      have hbase := ((h.content st running).decay worn.decay).add
        (m := ⟨call.code, cloudRecord req ticket c.generation (crypto.token.hash req.issueKey) now⟩)
        undrawn ⟨rfl, rfl, rfl, fun _ => rfl, fun hticket hne => absurd (hplain hticket) hne⟩
        fun _ => ⟨by simp [cloudGen, hpruned, cloudRecord], fun c₁ hc₁ _ => by
          rw [hpruned, Option.some.injEq] at hc₁
          rw [← hc₁]
          exact hinside⟩
      exact hbase.sample (sampled
        { c with issued := c.issued.filter fun t => now - cloudRateWindow < t } now)
        hpruned rfl rfl rfl _
  | @claimed st code challenge r _ running record unclaimed _ _ _ logs next lands =>
    obtain ⟨hminted, -, -, hsets, hcreated⟩ := logs
    rw [hminted, hsets, hcreated] at hland ⊢
    exact hland lands next ((h.content st running).claim record unclaimed.1) fun X hX =>
      hX.mono (fun _ => id) fun _ => mem_cons_of_mem _
  | @redeemed st r call _ running record free _ _ unused _ logs next lands =>
    obtain ⟨hminted, -, hsets, hcreated, -⟩ := logs
    rw [hminted, hsets, hcreated] at hland ⊢
    exact hland lands next ((h.content st running).exchange h.clients record free unused)
      fun X hX => hX.draw unused

theorem spent_kept {en : Enrolled} (hen : en ∈ s.enrolled) :
    ∀ X, s'.MayHold X → X.Every (crypto.token.hash en.code) Spent := by
  obtain ⟨m, hm, heq, -⟩ := (h.lawful en hen).origin
  exact every_change (fun _ _ => .ages) (fun _ _ _ hspent => hspent) ⟨m, hm, heq⟩
    (h.spent en hen) hchange

/-- The history that no redemption touches. -/
theorem UseInv.of_same (hminted : s'.minted = s.minted) (henrolled : s'.enrolled = s.enrolled)
    (hsets : ∀ q ∈ s.sets, q ∈ s'.sets) (hclients : (s'.created.map Prod.fst).Nodup) :
    UseInv crypto s' where
  content := content_change h hchange
  codes := hminted ▸ h.codes
  tickets := hminted ▸ h.tickets
  clients := hclients
  spent _ hen := spent_kept h hchange (henrolled ▸ hen)
  lawful en hen := (h.lawful en (henrolled ▸ hen)).mono (fun _ hm => hminted ▸ hm) hsets
  distinct := henrolled ▸ h.distinct

theorem UseInv.of_minted (hminted : s'.minted = m :: s.minted) (hcode : s.Undrawn m.code)
    (hticket : m.record.ticket = true → m.record.cloud = true)
    (henrolled : s'.enrolled = s.enrolled) (hsets : s'.sets = s.sets)
    (hcreated : s'.created = s.created) : UseInv crypto s' where
  content := content_change h hchange
  codes := by
    rw [hminted, map_cons, nodup_cons]
    exact ⟨hcode, h.codes⟩
  tickets m' hm' := by
    rw [hminted] at hm'
    obtain rfl | hm' := mem_cons.mp hm'
    · exact hticket
    · exact h.tickets m' hm'
  clients := hcreated ▸ h.clients
  spent _ hen := spent_kept h hchange (henrolled ▸ hen)
  lawful en hen := (h.lawful en (henrolled ▸ hen)).mono
    (fun _ hm => hminted ▸ mem_cons_of_mem _ hm) fun _ hq => hsets ▸ hq
  distinct := henrolled ▸ h.distinct

end

theorem nodup_draw {id code : String} (hid : s.Unused id) :
    (((id, code) :: s.created).map Prod.fst).Nodup := by
  rw [map_cons, nodup_cons]
  exact ⟨hid, h.clients⟩

theorem lawful_redeem (hst : s.MayHold st)
    {call : RedeemCall} (hr : st.codes.lookup (crypto.token.hash call.code) = some r)
    (haccept : st.checkVerifier crypto r call.verifier = .accept) : Lawful crypto s.minted s.sets
      ⟨call.code, call.clientID, call.verifier, r, st.cloud, r.grant⟩ := by
  obtain ⟨m, hm, hkey, hdesc⟩ := (h.content st hst).origin _ r hr
  have hcode : m.code = call.code := crypto.token.injective hkey
  have hcloud : r.ticket = true → r.cloud = true := fun hticket => by
    rw [hdesc.cloud]
    exact h.tickets m hm (hdesc.ticket ▸ hticket)
  have hne : r.ticket = true → r.challenge ≠ "" := fun hticket =>
    (checkVerifier_accept haccept (hcloud hticket)).1 hticket
  refine ⟨⟨m, hm, hcode, hdesc⟩, rfl, fun hc => ?_, hne, fun hticket => ?_⟩
  · obtain ⟨-, hs256, c, hpolicy, hon, hgen⟩ := checkVerifier_accept haccept hc
    exact ⟨c, hpolicy, hon, hgen, hs256, ((h.content st hst).scope _ r hr hc).2 c hpolicy hgen.symm⟩
  · exact hcode ▸ hdesc.claimed hticket (hne hticket)

theorem useInv_change (hchange : Change crypto now s e s') : UseInv crypto s' := by
  have hsame : SameLogs s s' → UseInv crypto s' := by
    intro logs
    refine h.of_same hchange logs.minted logs.enrolled (fun _ hq => logs.sets ▸ hq) ?_
    obtain heq | ⟨id, code, hid, heq⟩ := logs.created
    · exact heq ▸ h.clients
    · exact heq ▸ nodup_draw h hid
  have hchange' := hchange
  cases hchange with
  | worn logs => exact hsame logs
  | enabled _ logs => exact hsame logs
  | @manual _ _ code r _ _ _ undrawn _ origin logs =>
    obtain ⟨hminted, -, henrolled, hsets, hcreated⟩ := logs
    refine h.of_minted hchange' hminted undrawn (fun hticket => ?_) henrolled hsets hcreated
    rw [origin.2] at hticket
    cases hticket
  | issued _ _ _ _ _ _ _ _ _ undrawn _ _ logs =>
    obtain ⟨hminted, -, henrolled, hsets, hcreated⟩ := logs
    exact h.of_minted hchange' hminted undrawn (fun _ => rfl) henrolled hsets hcreated
  | claimed _ _ _ _ _ _ logs =>
    obtain ⟨hminted, -, henrolled, hsets, hcreated⟩ := logs
    exact h.of_same hchange' hminted henrolled
      (fun _ hq => hsets ▸ mem_cons_of_mem _ hq) (hcreated ▸ h.clients)
  | @redeemed st r call v running record free _ accepted unused durable logs next lands =>
    obtain ⟨hminted, -, hsets, hcreated, henrolled⟩ := logs
    have hclients : (s'.created.map Prod.fst).Nodup := hcreated ▸ nodup_draw h unused
    have hq : ∀ q ∈ s.sets, q ∈ s'.sets := fun _ hq => hsets ▸ hq
    cases durable with
    | false => exact h.of_same hchange' hminted henrolled hq hclients
    | true =>
      -- Every content has the record used up, since the commit is in place.
      have hnow : ∀ X, s'.MayHold X → X.Every (crypto.token.hash call.code) Spent := by
        intro X hX
        obtain hworn | ⟨hfalse, -⟩ := lands X (mayHold_next next hX)
        · exact (spent_exchange _ _ _ _ _).decay (fun _ _ => .ages) hworn.decay
        · cases hfalse
      refine ⟨content_change h hchange', hminted ▸ h.codes, hminted ▸ h.tickets, hclients,
        fun en hen => ?_, fun en hen => ?_, ?_⟩
      · rw [henrolled] at hen
        obtain rfl | hen := mem_cons.mp hen
        · exact hnow
        · exact spent_kept h hchange' hen
      · rw [henrolled] at hen
        refine Lawful.mono ?_ (fun _ hm => hminted ▸ hm) hq
        obtain rfl | hen := mem_cons.mp hen
        · exact lawful_redeem h running record accepted
        · exact h.lawful en hen
      · rw [henrolled]
        refine nodup_cons.mpr ⟨fun hmem => ?_, h.distinct⟩
        obtain ⟨en, hen, heq⟩ := mem_map.mp hmem
        exact h.spent en hen st running r (heq ▸ record) free

end

end Change

/-! ## Challenges -/

/-- The commit of a claim is known to be in place, or not to be. -/
def EnrollEvent.claimsKnown : EnrollEvent → Bool
  | .claimTicket _ _ _ _ commit => commit ≠ .ambiguous
  | _ => true

/-- A challenge that was set stays, in every content. -/
structure ClaimInv (crypto : Crypto) (s : EnrollState) : Prop where
  bound : ∀ q ∈ s.sets, q.2 ≠ "" ∧ (∃ m ∈ s.minted, m.code = q.1) ∧
    ∀ st, s.MayHold st → st.Every (crypto.token.hash q.1) fun r => r.challenge = q.2
  once : (s.sets.map Prod.fst).Nodup

section Claims

variable {crypto : Crypto} {now : Int} {s s' : EnrollState} {e : EnrollEvent}

theorem bound_kept (h : ClaimInv crypto s) (hchange : Change crypto now s e s')
    {q : String × String} (hq : q ∈ s.sets) :
    ∀ X, s'.MayHold X → X.Every (crypto.token.hash q.1) fun r => r.challenge = q.2 := by
  obtain ⟨hne, hdrawn, hbound⟩ := h.bound q hq
  refine every_change (fun r r' hages heq => hages.challenge.trans heq)
    (fun r challenge hunset heq => ?_) hdrawn hbound hchange
  exact absurd (heq.symm.trans hunset) hne

/-- The challenges are the same, and codes may be new. -/
theorem ClaimInv.of_same (h : ClaimInv crypto s) (hchange : Change crypto now s e s')
    (hsets : s'.sets = s.sets) (hminted : ∀ m ∈ s.minted, m ∈ s'.minted) : ClaimInv crypto s' where
  bound q hq := by
    rw [hsets] at hq
    obtain ⟨hne, ⟨m, hm, heq⟩, -⟩ := h.bound q hq
    exact ⟨hne, ⟨m, hminted m hm, heq⟩, bound_kept h hchange hq⟩
  once := hsets ▸ h.once

theorem claimInv_change (h : ClaimInv crypto s) (hdrawn : s.Drawn crypto)
    (hknown : e.claimsKnown = true) (hchange : Change crypto now s e s') : ClaimInv crypto s' := by
  have hchange' := hchange
  cases hchange with
  | worn logs | enabled _ logs => exact h.of_same hchange' logs.sets fun _ hm => logs.minted ▸ hm
  | manual _ _ _ _ _ logs | issued _ _ _ _ _ _ _ _ _ _ _ _ logs =>
    obtain ⟨hminted, -, -, hsets, -⟩ := logs
    exact h.of_same hchange' hsets fun _ hm => hminted ▸ mem_cons_of_mem _ hm
  | redeemed _ _ _ _ _ _ _ logs =>
    obtain ⟨hminted, -, hsets, -⟩ := logs
    exact h.of_same hchange' hsets fun _ hm => hminted ▸ hm
  | @claimed st code challenge r v running record unclaimed challenge_ne durable event logs next
      lands =>
      obtain ⟨hminted, -, -, hsets, -⟩ := logs
      have hsure : durable = true := by
        cases durable with
        | true => rfl
        | false =>
          obtain ⟨method, t, rfl⟩ := event rfl
          cases hknown
      refine ⟨fun q hq => ?_, ?_⟩
      · rw [hsets] at hq
        obtain rfl | hq := mem_cons.mp hq
        · obtain ⟨m, hm, hkey⟩ := hdrawn st running _ r record
          refine ⟨challenge_ne, ⟨m, hminted ▸ hm, crypto.token.injective hkey⟩, fun X hX => ?_⟩
          obtain hworn | ⟨hfalse, -⟩ := lands X (mayHold_next next hX)
          · refine .decay (fun r' hr' => ?_)
              (fun r r' hages heq => hages.challenge.trans heq) hworn.decay
            rw [claim, lookup_insert] at hr'
            cases hr'
            rfl
          · rw [hsure] at hfalse
            cases hfalse
        · obtain ⟨hne, ⟨m, hm, heq⟩, -⟩ := h.bound q hq
          exact ⟨hne, ⟨m, hminted ▸ hm, heq⟩, bound_kept h hchange' hq⟩
      · rw [hsets, map_cons, nodup_cons]
        refine ⟨fun hmem => ?_, h.once⟩
        -- A ticket that was claimed before has its challenge set in this very content.
        obtain ⟨q, hq, heq⟩ := mem_map.mp hmem
        obtain ⟨hne, -, hbound⟩ := h.bound q hq
        have hset := hbound st running r (by rw [heq, record])
        exact hne (hset.symm.trans unclaimed.2)

end Claims

/-! ## Runs -/

variable {crypto : Crypto} {s : EnrollState} {es : List EnrollEvent}

theorem useInv_blank (crypto : Crypto) : UseInv crypto .blank where
  content st hst := by
    obtain ⟨p, hp, -⟩ | hst := hst
    · cases hp
    · rw [mem_singleton.mp hst]
      exact ⟨by simp, fun k r h => by simp at h, by simp, by simp⟩
  codes := nodup_nil
  tickets _ hm := absurd hm not_mem_nil
  clients := nodup_nil
  spent _ hen := absurd hen not_mem_nil
  lawful _ hen := absurd hen not_mem_nil
  distinct := nodup_nil

theorem useInv_step {s' : EnrollState} {e : EnrollEvent} (h : UseInv crypto s)
    (hstep : s.step crypto e = some s') : UseInv crypto s' :=
  useInv_change h (step_change h.drawn hstep).1

theorem useInv_exec (h : exec (EnrollState.step crypto) .blank es = some s) : UseInv crypto s :=
  exec_invariant (UseInv crypto) (fun _ _ _ hinv hstep => useInv_step hinv hstep)
    (useInv_blank crypto) h

theorem claimInv_exec (h : exec (EnrollState.step crypto) .blank es = some s)
    (hknown : Along (EnrollState.step crypto) (fun _ e => e.claimsKnown = true) .blank
      es) : ClaimInv crypto s := by
  have hblank : ClaimInv crypto .blank :=
    ⟨fun _ hq => absurd hq not_mem_nil, nodup_nil⟩
  refine (exec_invariant_along (fun _ e => e.claimsKnown = true)
    (fun s => UseInv crypto s ∧ ClaimInv crypto s) ?_ ⟨useInv_blank crypto, hblank⟩ hknown h).2
  intro s e s' hinv he hstep
  exact ⟨useInv_step hinv.1 hstep,
    claimInv_change hinv.2 hinv.1.drawn he (step_change hinv.1.drawn hstep).1⟩

/-- **Codes are single use and bounded by the live policy.** In every run, with any commit outcomes,
    restarts and losses of power:
    * no code is answered with tokens twice, and no content has two grants of one code;
    * a grant from a cloud code was made while the policy was enabled, at the generation the code
      was minted under, for the verifier of its challenge, inside the policy's ceiling;
    * a ticket is redeemed only with a challenge that was set;
    * if no claim's commit is left unknown, each ticket's challenge is set at most once. -/
theorem codes_used_once_within_policy
    (h : exec (EnrollState.step crypto) .blank es = some s) :
    (s.enrolled.map Enrolled.code).Nodup ∧
    (∀ st, s.MayHold st → ∀ id id' g g' code, st.grants.lookup id = some g →
      st.grants.lookup id' = some g' → (id, code) ∈ s.created → (id', code) ∈ s.created →
      id = id') ∧
    (∀ en ∈ s.enrolled, en.record.cloud = true → ∃ c, en.policy = some c ∧ c.enabled = true ∧
      (∀ m ∈ s.minted, m.code = en.code → m.record.policyGen = c.generation ∧
        (m.record.ticket = false → m.record.challenge = en.record.challenge)) ∧
      crypto.s256 en.verifier = en.record.challenge ∧
      (∀ p ∈ en.grant.perms, p ∈ c.perms) ∧
      withinCeiling en.grant.resource c.resource = true) ∧
    (∀ en ∈ s.enrolled, en.record.ticket = true →
      en.record.challenge ≠ "" ∧ (en.code, en.record.challenge) ∈ s.sets) ∧
    (Along (EnrollState.step crypto) (fun _ e => e.claimsKnown = true) .blank es →
      (s.sets.map Prod.fst).Nodup) := by
  have hinv := useInv_exec h
  refine ⟨hinv.distinct, fun st hst => (hinv.content st hst).single, fun en hen hcloud => ?_,
    fun en hen hticket => ?_, fun hknown => (claimInv_exec h hknown).once⟩
  · have hlawful := hinv.lawful en hen
    obtain ⟨c, hpolicy, hon, hgen, hs256, hinside⟩ := hlawful.policy hcloud
    obtain ⟨m, hm, heq, hdesc⟩ := hlawful.origin
    refine ⟨c, hpolicy, hon, fun m' hm' heq' => ?_, hs256, ?_⟩
    · -- The code was minted once.
      obtain rfl := inj_on_of_nodup_map hinv.codes hm' hm (heq'.trans heq.symm)
      refine ⟨hdesc.policyGen.symm.trans hgen.symm, fun hplain => ?_⟩
      exact (hdesc.challenge (hdesc.ticket.trans hplain)).symm
    · rw [hlawful.grant]
      exact hinside
  · exact ⟨(hinv.lawful en hen).challenge_ne hticket, (hinv.lawful en hen).claimed hticket⟩

/-! ## Two runs -/

/-- Hashes that do not collide, for runs on given data. -/
def plainCrypto : Crypto where
  token := ⟨fun t => "#" ++ t, fun a b h => by simpa using h, fun t h => by simp at h⟩
  s256 := id
  reqHash req := req.requester ++ req.codeChallenge

/-- Two challenges: encodings of 32 bytes. -/
def firstChallenge : String := "AAAAAAAAAAAAAAAAAAAAAAAAAAAAAAAAAAAAAAAAAAA"

def otherChallenge : String := "AAAAAAAAAAAAAAAAAAAAAAAAAAAAAAAAAAAAAAAAAAE"

def instant (n : Nat) : Instant := ⟨n + 1, by omega⟩

def openFile (n : Nat) : EnrollEvent := .load [] false (instant n) .ok

/-- The policy is enabled and a ticket minted. -/
def ticketIssued : List EnrollEvent :=
  [openFile 0,
   .enableCloud ⟨["read"], ⟨"all_sessions", []⟩, "owner", "provider", 0, 0⟩ (instant 1) .ok,
   .issueCloudCode ⟨⟨"key", "owner", "provider", "", "", ["read"], ⟨"all_sessions", []⟩, "",
     "device_ticket"⟩, "ticket", instant 2, [], .ok⟩]

def claimBy (challenge : String) (n : Nat) (commit : Commit) : EnrollEvent :=
  .claimTicket "ticket" challenge "S256" (instant n) commit

/-- The device that claimed the ticket redeems it. -/
theorem codes_used_once_within_policy_ticket :
    ∃ s, exec (EnrollState.step plainCrypto) .blank (ticketIssued ++
        [claimBy firstChallenge 3 .ok,
         .redeem ⟨"ticket", "", "web", firstChallenge, "c", instant 4, [], .ok⟩]) = some s ∧
      s.enrolled.map Enrolled.code = ["ticket"] ∧ (s.sets.map Prod.fst).Nodup ∧
      ∀ en ∈ s.enrolled, en.record.ticket = true → (en.code, en.record.challenge) ∈ s.sets := by
  refine reaches_imp (P := fun s => s.enrolled.map Enrolled.code = ["ticket"])
    (by decide +kernel) fun s hs hcodes => ?_
  obtain ⟨-, -, -, htickets, honce⟩ := codes_used_once_within_policy hs
  refine ⟨hcodes, honce ?_, fun en hen ht => (htickets en hen ht).2⟩
  exact .of_forall (by decide)

/-- **A ticket is claimed twice.** The commit of the first claim is not known to be in place; the
    process restarts and the device's retry succeeds; a loss of power brings back the ticket without
    a challenge, and another device claims it. Both claims were answered with success. -/
theorem ticket_claimed_by_two_devices :
    ∃ s, exec (EnrollState.step plainCrypto) .blank (ticketIssued ++
        [claimBy firstChallenge 3 .ambiguous, .exit, openFile 4, claimBy firstChallenge 5 .ok,
         .powerLoss 1, openFile 6, claimBy otherChallenge 7 .ok]) = some s ∧
      ("ticket", firstChallenge) ∈ s.claims ∧ ("ticket", otherChallenge) ∈ s.claims ∧
      firstChallenge ≠ otherChallenge ∧ ¬ (s.sets.map Prod.fst).Nodup := by
  decide +kernel

end AgentMultiplexer.Direct.Enroll
