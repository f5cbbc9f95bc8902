import AgentMultiplexer.Direct.SingleUse
import AgentMultiplexer.Theory.Windows

set_option autoImplicit false

/-! # Cloud issuance records

The issue records and the code records refer to each other. Replay material is always that of a code
that is not used up and names the key, whatever the clock does. The other promises compare times, so
they need a clock that does not go backwards: a key is answered with a second new code only once the
tombstone of the first is past its retention, the samples of the policy bound the codes of any hour,
and the outstanding codes stay within the policy's cap. -/

namespace AgentMultiplexer.Direct.Enroll

open GoMap List Transition Store Option Nat GoMap

/-! ## Replay material -/

variable {c : CloudPolicy} {req : IssueRequest} {r : CodeRecord} {ticket : Bool} {key : String}
  {challenge : String}

namespace Store

variable {st : Store} {crypto : Crypto}

theorem consistent_mint
    {codeHash keyHash reqHash code : String} {t : Int} (h : st.Consistent) (hkey : keyHash ≠ "")
    (hcode : st.codes.lookup codeHash = none) :
    (st.mint c req ticket codeHash keyHash reqHash code t).Consistent := by
  intro k is his hlive
  simp only [mint, lookup_insert_ite] at his ⊢
  split_ifs at his with hk
  · cases his
    exact ⟨hk ▸ hkey, _, if_pos rfl, rfl, rfl, hk.symm⟩
  obtain ⟨hne, r, hr, hrest⟩ := h k is his hlive
  have hother : is.codeHash ≠ codeHash := by
    intro heq
    rw [heq, hcode] at hr
    cases hr
  exact ⟨hne, r, by rw [if_neg hother, hr], hrest⟩

theorem consistent_claim (h : st.Consistent)
    (hr : st.codes.lookup key = some r) : (st.claim key r challenge).Consistent := by
  intro k is his hlive
  obtain ⟨hne, r₁, hr₁, hfree, hcloud, hkey⟩ := h k is his hlive
  refine ⟨hne, ?_⟩
  simp only [claim, lookup_insert_ite]
  split_ifs with hsame
  · rw [hsame, hr, some.injEq] at hr₁
    subst hr₁
    exact ⟨_, rfl, hfree, hcloud, hkey⟩
  · exact ⟨r₁, hr₁, hfree, hcloud, hkey⟩

end Store

section Change

variable {crypto : Crypto} {now : Int} {s s' : EnrollState} {e : EnrollEvent}

theorem consistent_change (h : ∀ st, s.MayHold st → st.Consistent)
    (hchange : Change crypto now s e s') : ∀ X, s'.MayHold X → X.Consistent := by
  have hland : ∀ {N : Store} {durable : Bool} {v : Live}, Lands now N durable s.disk v →
      s'.process = some v.process ∧ s'.disk = v.disk → N.Consistent →
      ∀ X, s'.MayHold X → X.Consistent := by
    intro N durable v hlands hnext hN X hX
    obtain hworn | ⟨-, hold⟩ := hlands X (mayHold_next hnext hX)
    · exact hworn.consistent hN
    · exact h X (.inr hold)
  cases hchange with
  | worn logs contents =>
    intro X hX
    obtain ⟨st, hst, hworn⟩ := contents X hX
    exact hworn.consistent (h st hst)
  | @enabled st _ _ _ running _ _ next _ lands =>
    exact hland lands next ((h st running).of_eq rfl rfl)
  | @manual st pruned code r _ running worn _ fresh _ _ next _ lands =>
    refine hland lands next (consistent_newCode _ fresh (fun k hk => ?_)
      (worn.consistent (h st running)))
    exact AList.lookup_insert_ne hk
  | @issued st pruned _ _ req _ call _ running _ _ _ _ _ _ worn _ _ fresh _ _ next lands =>
    exact hland lands next (consistent_mint (worn.consistent (h st running))
      (crypto.token.ne_empty _) fresh)
  | @claimed st _ _ _ _ running record _ _ _ _ _ next lands =>
    exact hland lands next (consistent_claim (h st running) record)
  | @redeemed st _ _ _ running record _ _ _ _ _ _ next lands =>
    refine hland lands next (consistent_use record (exchange_codes ..) (fun k => ?_) (h st running))
    rw [exchange_issues, lookup_takeReplay]

end Change

/-! ## Outstanding codes -/

namespace Store

variable {st st' : Store} {now t : Int}

/-- The weight of a record in `cloudOutstandingLocked`. -/
def weight (generation : Nat) (t : Int) (r : CodeRecord) : Nat :=
  if r.cloud ∧ r.consumedAt = 0 ∧ t < r.expiresAt ∧ r.policyGen = generation then 1 else 0

theorem cloudOutstanding_eq : st.cloudOutstanding t = st.codes.total (weight st.cloudGen t) := rfl

theorem weight_le_one (generation : Nat) (r : CodeRecord) : weight generation t r ≤ 1 := by
  unfold weight
  split_ifs <;> omega

theorem weight_ages {r' : CodeRecord} (h : Ages r r') (generation : Nat) :
    weight generation t r' ≤ weight generation t r := by
  unfold weight
  rw [h.cloud, h.expiresAt, h.policyGen]
  by_cases hspent : r'.consumedAt = 0
  · have hfree : r.consumedAt = 0 := by
      by_contra hne
      exact h.spent hne hspent
    rw [hspent, hfree]
  · rw [if_neg fun hall => hspent hall.2.1]
    exact zero_le _

/-- Codes only expire. -/
theorem cloudOutstanding_anti {t' : Int} (h : t ≤ t') :
    st.cloudOutstanding t' ≤ st.cloudOutstanding t := by
  refine total_le_total fun k r hr => ⟨r, hr, ?_⟩
  split_ifs with hnew hold hold
  · exact le_refl 1
  · exact absurd ⟨hnew.1, hnew.2.1, by omega, hnew.2.2.2⟩ hold
  · exact zero_le 1
  · exact le_refl 0

theorem cloudOutstanding_decay (hd : Decay now st st') (hgen : st'.cloudGen = st.cloudGen) :
    st'.cloudOutstanding t ≤ st.cloudOutstanding t := by
  rw [cloudOutstanding_eq, cloudOutstanding_eq, hgen]
  refine total_le_total fun k r' hr' => ?_
  obtain ⟨r, hr, hages⟩ := hd.codes k r' hr'
  exact ⟨r, hr, weight_ages hages _⟩

/-- Under a new generation no code is outstanding. -/
theorem total_weight_newer {generation : Nat} {codes : GoMap String CodeRecord}
    (h : ∀ k r, codes.lookup k = some r → r.cloud = true → r.policyGen < generation) :
    codes.total (weight generation t) = 0 := by
  refine total_eq_zero fun k r hr => if_neg ?_
  rintro ⟨hcloud, -, -, hgen⟩
  have := h k r hr hcloud
  omega

end Store

/-- Cloud records are of no later generation than the policy. -/
def Store.Dated (st : Store) : Prop :=
  ∀ k r, st.codes.lookup k = some r → r.cloud = true → r.policyGen ≤ st.cloudGen

theorem Store.Dated.decay {now : Int} {st st' : Store} (h : st.Dated) (hd : Decay now st st') :
    st'.Dated := by
  intro k r' hr' hcloud
  obtain ⟨r, hr, hages⟩ := hd.codes k r' hr'
  rw [hages.policyGen]
  exact (h k r hr (hages.cloud ▸ hcloud)).trans hd.cloudGen_le

/-- The codes outstanding from this time on are within the policy's cap. -/
def Store.Capped (st : Store) (clock : Int) : Prop :=
  ∀ c, st.cloud = some c → ∀ t, clock ≤ t → st.cloudOutstanding t ≤ c.maxOutstanding

namespace Store

variable {st st' : Store} {now clock : Int}

theorem cloudGen_eq (hc : st.cloud = some c) : st.cloudGen = c.generation := by
  simp [cloudGen, hc]

theorem Capped.decay (h : st.Capped clock) (hdated : st.Dated) (hd : Decay now st st')
    (hle : clock ≤ now) : st'.Capped now := by
  intro c' hc' t ht
  obtain ⟨c, hc, hpolicy⟩ := hd.policy_before hc'
  by_cases hgen : c'.generation = c.generation
  · obtain ⟨-, -, hcap, -⟩ := hpolicy.same hgen
    rw [hcap]
    refine (cloudOutstanding_decay hd ?_).trans (h c hc t (Int.le_trans hle ht))
    rw [cloudGen_eq hc', cloudGen_eq hc, hgen]
  -- The policy has moved on, and every code is of an earlier generation.
  rw [cloudOutstanding_eq, total_weight_newer fun k r' hr' hcloud => ?_]
  · exact zero_le _
  obtain ⟨r, hr, hages⟩ := hd.codes k r' hr'
  have hold := hdated k r hr (hages.cloud ▸ hcloud)
  have := hpolicy.generation
  rw [cloudGen_eq hc] at hold
  rw [cloudGen_eq hc', hages.policyGen]
  omega

theorem Capped.enable (hdated : st.Dated) {policy : CloudPolicy}
    (hgen : policy.generation = st.cloudGen + 1) : Capped { st with cloud := some policy } now := by
  intro c hc t _
  cases hc
  rw [cloudOutstanding_eq, total_weight_newer fun k r hr hcloud => ?_]
  · exact zero_le _
  have := hdated k r hr hcloud
  change r.policyGen < policy.generation
  omega

/-- One record more, or one replaced by another of the same weight. -/
theorem Capped.manual (h : st.Capped clock)
    (hnone : st.codes.lookup key = none) (hmanual : r.cloud = false) :
    Capped { st with codes := st.codes.insert key r } clock := by
  intro c hc t ht
  have hweight : weight st.cloudGen t r = 0 := if_neg fun hall => by
    rw [hmanual] at hall
    cases hall.1
  change total (weight st.cloudGen t) (st.codes.insert key r) ≤ c.maxOutstanding
  rw [total_insert_of_lookup_none hnone, hweight, Nat.zero_add]
  exact h c hc t ht

theorem Capped.claim (h : st.Capped clock)
    (hr : st.codes.lookup key = some r) : (st.claim key r challenge).Capped clock := by
  intro c hc t ht
  have htotal := total_insert_of_lookup (f := weight st.cloudGen t)
    (v := { r with challenge := challenge }) hr
  have hsame : weight st.cloudGen t { r with challenge := challenge } = weight st.cloudGen t r := rfl
  have := h c hc t ht
  rw [cloudOutstanding_eq] at this ⊢
  change total (weight st.cloudGen t)
    (st.codes.insert key { r with challenge := challenge }) ≤ c.maxOutstanding
  omega

/-- A mint for which there was room before the prune. -/
theorem Capped.mint {pruned : Store} {c' : CloudPolicy}
    {codeHash keyHash reqHash code : String} (hc : st.cloud = some c)
    (hroom : st.cloudOutstanding now < c.maxOutstanding) (hd : Decay now st pruned)
    (hpruned : pruned.cloud = some c') (hgen : c'.generation = c.generation)
    (hcap : c'.maxOutstanding = c.maxOutstanding) (hcode : pruned.codes.lookup codeHash = none) :
    (pruned.mint c' req ticket codeHash keyHash reqHash code now).Capped now := by
  intro c₁ hc₁ t ht
  cases hc₁
  have hsame : pruned.cloudGen = st.cloudGen := by
    rw [cloudGen_eq hpruned, cloudGen_eq hc, hgen]
  have hbefore : pruned.cloudOutstanding t ≤ st.cloudOutstanding now :=
    (cloudOutstanding_decay hd hsame).trans (cloudOutstanding_anti ht)
  rw [cloudOutstanding_eq, cloudGen_eq hpruned] at hbefore
  have hone := weight_le_one (t := t) c'.generation
    (cloudRecord req ticket c'.generation keyHash now)
  change total (weight c'.generation t) (pruned.codes.insert codeHash
    (cloudRecord req ticket c'.generation keyHash now)) ≤ c'.maxOutstanding
  rw [total_insert_of_lookup_none hcode]
  omega

end Store

/-! ## Tombstones, samples and rates -/

def Store.samples (st : Store) : List Int := (st.cloud.map CloudPolicy.issued).getD []

/-- The key has a tombstone at least as young as the issue, or the issue is past the retention. -/
def Remembered (crypto : Crypto) (clock : Int) (st : Store) (i : Issue) : Prop :=
  (∃ is, st.issues.lookup (crypto.token.hash i.issueKey) = some is ∧ i.expiresAt ≤ is.expiresAt) ∨
    i.expiresAt + cloudIssueRetention < clock

/-- The policy is of the issue's generation, with its rate, or of a later one. -/
def RateKept (st : Store) (i : Issue) : Prop :=
  i.generation ≤ st.cloudGen ∧
    ∀ c, st.cloud = some c → c.generation = i.generation → c.maxPerHour = i.maxPerHour

/-- What every content keeps of the codes that were handed out, at this time. -/
structure Kept (crypto : Crypto) (clock : Int) (issued : List Issue) (st : Store) : Prop where
  dated : st.Dated
  capped : st.Capped clock
  samples : ∀ w, clock - cloudRateWindow ≤ w →
    issued.countP (fun i => w < i.mintedAt) ≤ st.samples.countP fun t => w < t
  tombs : ∀ i ∈ issued, Remembered crypto clock st i
  rates : ∀ i ∈ issued, RateKept st i

namespace Kept

variable {crypto : Crypto} {clock now : Int} {issued : List Issue} {st st' : Store}

variable {i : Issue}

theorem remembered_decay (h : Remembered crypto clock st i) (hd : Decay now st st')
    (hle : clock ≤ now) : Remembered crypto now st' i := by
  obtain ⟨is, his, hage⟩ | hold := h
  · obtain ⟨is', his'⟩ | hgone := hd.tombstones _ is his
    · obtain ⟨is₀, his₀, heq⟩ := hd.issues _ is' his'
      rw [his, some.injEq] at his₀
      refine .inl ⟨is', his', ?_⟩
      rw [heq, ← his₀]
      exact hage
    · exact .inr (by omega)
  · exact .inr (by omega)

theorem rateKept_decay (h : RateKept st i) (hd : Decay now st st') : RateKept st' i := by
  refine ⟨h.1.trans hd.cloudGen_le, fun c' hc' hgen => ?_⟩
  obtain ⟨c, hc, hpolicy⟩ := hd.policy_before hc'
  have hle := h.1
  rw [cloudGen_eq hc] at hle
  have hsame : c'.generation = c.generation := by
    have := hpolicy.generation
    omega
  rw [(hpolicy.same hsame).2.2.2]
  exact h.2 c hc (by omega)

theorem samples_decay (hd : Decay now st st') {w : Int} (hw : now - cloudRateWindow ≤ w) :
    st.samples.countP (fun t => w < t) ≤ st'.samples.countP fun t => w < t := by
  cases hc : st.cloud with
  | none => simp [Store.samples, hc]
  | some c =>
    obtain ⟨c', hc', hpolicy⟩ := hd.policy c hc
    simpa [Store.samples, hc, hc'] using hpolicy.samples w hw

theorem decay (h : Kept crypto clock issued st) (hd : Decay now st st') (hle : clock ≤ now) :
    Kept crypto now issued st' where
  dated := h.dated.decay hd
  capped := h.capped.decay h.dated hd hle
  samples w hw := (h.samples w (by omega)).trans (samples_decay hd hw)
  tombs i hi := remembered_decay (h.tombs i hi) hd hle
  rates i hi := rateKept_decay (h.rates i hi) hd

theorem later (h : Kept crypto clock issued st) (hle : clock ≤ now) : Kept crypto now issued st :=
  h.decay (.refl now st) hle

theorem tail (h : Kept crypto clock (i :: issued) st) : Kept crypto clock issued st where
  dated := h.dated
  capped := h.capped
  samples w hw := by
    refine le_trans ?_ (h.samples w hw)
    rw [countP_cons]
    exact le_add_right _ _
  tombs j hj := h.tombs j (mem_cons_of_mem _ hj)
  rates j hj := h.rates j (mem_cons_of_mem _ hj)

theorem enable (h : Kept crypto clock issued st) {policy : CloudPolicy}
    (hgen : policy.generation = st.cloudGen + 1) (hissued : policy.issued = st.samples) :
    Kept crypto clock issued { st with cloud := some policy } where
  dated k r hr hcloud := by
    have := h.dated k r hr hcloud
    change r.policyGen ≤ policy.generation
    omega
  capped := .enable h.dated hgen
  samples w hw := by
    change _ ≤ policy.issued.countP _
    rw [hissued]
    exact h.samples w hw
  tombs := h.tombs
  rates i hi := by
    have hle := (h.rates i hi).1
    refine ⟨?_, fun c hc heq => ?_⟩
    · change i.generation ≤ policy.generation
      omega
    · cases hc
      omega

variable {r : CodeRecord}

section

variable (h : Kept crypto clock issued st)

include h

theorem manual (hnone : st.codes.lookup key = none) (hmanual : r.cloud = false) :
    Kept crypto clock issued { st with codes := st.codes.insert key r } := { h with
  dated := by
    refine forall_insert (fun hcloud => ?_) h.dated
    rw [hmanual] at hcloud
    cases hcloud
  capped := h.capped.manual hnone hmanual }

theorem claim (hr : st.codes.lookup key = some r) :
    Kept crypto clock issued (st.claim key r challenge) := { h with
  dated := forall_insert (h.dated key r hr) h.dated
  capped := h.capped.claim hr }

theorem exchange (hle : clock ≤ now) {id : String}
    {t : Instant} (hr : st.codes.lookup key = some r) :
    Kept crypto now issued (st.exchange key r id t) :=
  have hd := h.decay (@Store.decay_exchange id st now key r t hr) hle
  { hd with }

theorem mint (hle : clock ≤ now) {pruned : Store}
    (ticket : Bool) {codeHash : String}
    (reqHash code : String) (hc : st.cloud = some c)
    (hroom : st.cloudOutstanding now < c.maxOutstanding)
    (hd : Decay now st pruned)
    (hpruned : pruned.cloud =
      some { c with issued := c.issued.filter fun t => now - cloudRateWindow < t })
    (hcode : pruned.codes.lookup codeHash = none) (hkey : i.issueKey = req.issueKey)
    (hmint : i.mintedAt = now) (hexp : i.expiresAt = now + cloudCodeTTL)
    (hgen : i.generation = c.generation) (hrate : i.maxPerHour = c.maxPerHour)
    (hpast : ∀ j ∈ issued, j.expiresAt ≤ now + cloudCodeTTL) :
    Kept crypto now (i :: issued) (pruned.mint
      { c with issued := c.issued.filter fun t => now - cloudRateWindow < t } req ticket codeHash
      (crypto.token.hash req.issueKey) reqHash code now) := by
  have hbase := h.decay hd hle
  have hcloudGen : pruned.cloudGen = c.generation := by rw [Store.cloudGen_eq hpruned]
  refine ⟨?_, .mint hc hroom hd hpruned rfl rfl hcode, ?_, ?_, ?_⟩
  · exact forall_insert (fun _ => le_refl _)
      fun k r hr hcloud => hcloudGen ▸ hbase.dated k r hr hcloud
  · intro w hw
    have hold := hbase.samples w hw
    simp only [Store.samples, hpruned, map_some, getD_some] at hold
    simp only [Store.samples, Store.mint, Store.sampled, map_some, getD_some,
      countP_append, countP_cons, countP_nil, hmint]
    omega
  · intro j hj
    obtain hsame | hother := eq_or_ne j.issueKey req.issueKey
    · -- The new tombstone is at least as young as every issue so far.
      refine .inl ⟨_, by rw [hsame]; exact AList.lookup_insert _, ?_⟩
      obtain rfl | hj := mem_cons.mp hj
      · exact Int.le_of_eq hexp
      · exact hpast j hj
    · obtain rfl | hj := mem_cons.mp hj
      · exact absurd hkey hother
      · obtain ⟨is, his, hage⟩ | hold := hbase.tombs j hj
        · refine .inl ⟨is, ?_, hage⟩
          rw [← his]
          exact AList.lookup_insert_ne fun heq => hother (crypto.token.injective heq)
        · exact .inr hold
  · intro j hj
    obtain rfl | hj := mem_cons.mp hj
    · refine ⟨hgen.le, fun c₁ hc₁ _ => ?_⟩
      cases hc₁
      exact hrate.symm
    · obtain ⟨hlow, hsame⟩ := hbase.rates j hj
      refine ⟨hcloudGen ▸ hlow, fun c₁ hc₁ heq => ?_⟩
      cases hc₁
      have hrate' := hsame _ hpruned
      exact hrate' heq

end

end Kept

/-! ## Runs -/

/-- The clock does not go backwards. -/
def Forward (s : EnrollState) (e : EnrollEvent) : Prop := s.clock ≤ e.clockAfter s.clock

instance (s : EnrollState) (e : EnrollEvent) : Decidable (Forward s e) :=
  inferInstanceAs (Decidable (_ ≤ _))

/-- The invariant of the codes that were handed out, over every content the file may have. -/
structure IssueInv (crypto : Crypto) (s : EnrollState) : Prop where
  kept : ∀ st, s.MayHold st → Kept crypto s.clock s.issued st
  past : ∀ i ∈ s.issued, i.mintedAt ≤ s.clock ∧ i.expiresAt = i.mintedAt + cloudCodeTTL
  admitted : Windows.Admitted Issue.mintedAt cloudRateWindow Issue.maxPerHour s.issued
  sameRate : ∀ i ∈ s.issued, ∀ j ∈ s.issued, i.generation = j.generation →
    i.maxPerHour = j.maxPerHour
  remint : s.issued.Pairwise fun i j => i.issueKey = j.issueKey →
    j.expiresAt + cloudIssueRetention < i.mintedAt

section Steps

variable {crypto : Crypto} {s s' : EnrollState} {e : EnrollEvent}

theorem issueKey_of_admitted {req' : IssueRequest}
    (h : req.labelled.admitted c = .ok (req', ticket)) : req'.issueKey = req.issueKey := by
  have hlabel : req.labelled.issueKey = req.issueKey := by
    unfold IssueRequest.labelled
    split_ifs <;> rfl
  rw [← hlabel]
  revert h
  fun_cases req.labelled.admitted c with
  | case8 =>
    rintro ⟨⟩
    rfl
  | _ => rintro ⟨⟩

theorem IssueInv.of_same (h : IssueInv crypto s) (hle : s.clock ≤ s'.clock)
    (hissued : s'.issued = s.issued)
    (hkept : ∀ X, s'.MayHold X → Kept crypto s'.clock s.issued X) : IssueInv crypto s' where
  kept := hissued ▸ hkept
  past i hi := by
    obtain ⟨hmint, hexp⟩ := h.past i (hissued ▸ hi)
    exact ⟨Int.le_trans hmint hle, hexp⟩
  admitted := hissued ▸ h.admitted
  sameRate := hissued ▸ h.sameRate
  remint := hissued ▸ h.remint

/-- A new code was handed out, for a key without a tombstone and with room in the window. -/
theorem IssueInv.of_issued (h : IssueInv crypto s) (hle : s.clock ≤ s'.clock) {i : Issue}
    (hissued : s'.issued = i :: s.issued)
    (hkept : ∀ X, s'.MayHold X → Kept crypto s'.clock (i :: s.issued) X)
    (hmint : i.mintedAt = s'.clock) (hexp : i.expiresAt = s'.clock + cloudCodeTTL) {st : Store}
    (hst : s.MayHold st) (hc : st.cloud = some c)
    (hgen : i.generation = c.generation) (hrate : i.maxPerHour = c.maxPerHour)
    (hnone : st.issues.lookup (crypto.token.hash i.issueKey) = none)
    (hroom : issuedSince c.issued s'.clock < c.maxPerHour) : IssueInv crypto s' := by
  have hold := h.kept st hst
  have hsame : ∀ j ∈ s.issued, i.generation = j.generation → i.maxPerHour = j.maxPerHour := by
    intro j hj heq
    rw [hrate]
    exact (hold.rates j hj).2 c hc (hgen.symm.trans heq)
  refine ⟨hissued ▸ hkept, fun j hj => ?_, ?_, fun j hj k hk heq => ?_, ?_⟩
  · rw [hissued] at hj
    obtain rfl | hj := mem_cons.mp hj
    · omega
    · have := h.past j hj
      omega
  · rw [hissued]
    refine ⟨h.admitted, fun j hj => ?_, ?_⟩
    · have := h.past j hj
      omega
    -- The samples of the policy count every code of the hour that ends now.
    have hcount := hold.samples (s'.clock - cloudRateWindow) (by omega)
    simp only [samples, hc, map_some, getD_some] at hcount
    unfold issuedSince at hroom
    rw [countP_cons, hmint, hrate]
    split_ifs <;> omega
  · rw [hissued] at hj hk
    obtain rfl | hj' := mem_cons.mp hj
    · obtain rfl | hk' := mem_cons.mp hk
      · rfl
      · exact hsame k hk' heq
    · obtain rfl | hk' := mem_cons.mp hk
      · exact (hsame j hj' heq.symm).symm
      · exact h.sameRate j hj' k hk' heq
  · rw [hissued, pairwise_cons]
    refine ⟨fun j hj hkey => ?_, h.remint⟩
    obtain ⟨is, his, -⟩ | hgone := hold.tombs j hj
    · rw [← hkey, hnone] at his
      cases his
    · omega

theorem issueInv_change (h : IssueInv crypto s) (hle : s.clock ≤ s'.clock)
    (hchange : Change crypto s'.clock s e s') : IssueInv crypto s' := by
  have hland : ∀ {N : Store} {durable : Bool} {v : Live},
      Lands s'.clock N durable s.disk v → s'.process = some v.process ∧ s'.disk = v.disk →
      Kept crypto s'.clock s.issued N → ∀ X, s'.MayHold X → Kept crypto s'.clock s.issued X := by
    intro N durable v hlands hnext hN X hX
    obtain hworn | ⟨-, hold⟩ := hlands X (mayHold_next hnext hX)
    · exact hN.decay hworn.decay (Int.le_refl _)
    · exact (h.kept X (.inr hold)).later hle
  cases hchange with
  | worn logs contents =>
    refine h.of_same hle logs.issued fun X hX => ?_
    obtain ⟨st, hst, hworn⟩ := contents X hX
    exact (h.kept st hst).decay hworn.decay hle
  | @enabled st _ policy _ running logs policy_eq next _ lands =>
    obtain ⟨hgen, hissued⟩ := generation_of_normalizePolicy policy_eq
    exact h.of_same hle logs.issued
      (hland lands next (((h.kept st running).later hle).enable hgen hissued))
  | @manual st pruned code r _ running worn _ fresh origin logs next _ lands =>
    exact h.of_same hle logs.2.1
      (hland lands next (((h.kept st running).decay worn.decay hle).manual fresh origin.1))
  | @claimed st _ _ _ _ running record _ _ _ _ logs next lands =>
    exact h.of_same hle logs.2.1 (hland lands next (((h.kept st running).later hle).claim record))
  | @redeemed st _ _ _ running record _ _ _ _ _ logs next lands =>
    exact h.of_same hle logs.2.1 (hland lands next ((h.kept st running).exchange hle record))
  | @issued st pruned c c' req ticket call v running policy clock admitted fresh_key capacity rate
      worn pruned_policy _ fresh durable logs next lands =>
      obtain ⟨hpruned, rfl⟩ := pruned_policy
      obtain ⟨-, hissued, -⟩ := logs
      have hkey := issueKey_of_admitted admitted
      have hpast : ∀ j ∈ s.issued, j.expiresAt ≤ s'.clock + cloudCodeTTL := fun j hj => by
        have := h.past j hj
        omega
      have hN := (h.kept st running).mint (i := issueOf call c) hle ticket
        (crypto.reqHash req.hashed) call.code policy capacity worn.decay hpruned fresh hkey.symm
        clock.symm (by rw [clock]; rfl) rfl rfl hpast
      cases durable with
      | false => exact h.of_same hle hissued (hland lands next hN.tail)
      | true =>
        refine h.of_issued hle hissued (fun X hX => ?_) clock.symm (by rw [clock]; rfl) running
          policy rfl rfl (by rw [issueOf, ← hkey, fresh_key]) rate
        obtain hworn | ⟨hfalse, -⟩ := lands X (mayHold_next next hX)
        · exact hN.decay hworn.decay (Int.le_refl _)
        · cases hfalse

end Steps

variable {crypto : Crypto} {s : EnrollState} {es : List EnrollEvent}

theorem consistent_exec (h : exec (EnrollState.step crypto) .blank es = some s) :
    ∀ st, s.MayHold st → st.Consistent := by
  refine (exec_invariant
    (fun s => UseInv crypto s ∧ ∀ st, s.MayHold st → st.Consistent) ?_ ⟨useInv_blank crypto, ?_⟩ h).2
  · intro s e s' hinv hstep
    exact ⟨useInv_step hinv.1 hstep, consistent_change hinv.2 (step_change hinv.1.drawn hstep).1⟩
  · rintro st (⟨p, hp, -⟩ | hst)
    · cases hp
    · rw [mem_singleton.mp hst]
      intro k is his
      simp at his

theorem issueInv_blank (crypto : Crypto) : IssueInv crypto .blank where
  kept st hst := by
    obtain ⟨p, hp, -⟩ | hst := hst
    · cases hp
    rw [mem_singleton.mp hst]
    refine ⟨fun k r hr => ?_, fun c hc => ?_, fun w _ => le_refl 0,
      fun i hi => absurd hi not_mem_nil, fun i hi => absurd hi not_mem_nil⟩
    · simp at hr
    · cases hc
  past i hi := absurd hi not_mem_nil
  admitted := trivial
  sameRate i hi := absurd hi not_mem_nil
  remint := .nil

theorem issueInv_exec (h : exec (EnrollState.step crypto) .blank es = some s)
    (hforward : Along (EnrollState.step crypto) Forward .blank es) : IssueInv crypto s := by
  refine (exec_invariant_along Forward (fun s => UseInv crypto s ∧ IssueInv crypto s) ?_
    ⟨useInv_blank crypto, issueInv_blank crypto⟩ hforward h).2
  intro s e s' hinv hle hstep
  obtain ⟨hchange, hclock⟩ := step_change hinv.1.drawn hstep
  rw [← hclock] at hchange
  exact ⟨useInv_step hinv.1 hstep, issueInv_change hinv.2 (hclock ▸ hle) hchange⟩

/-- **Cloud issuance.** In every run, with any commit outcomes, restarts and losses of power, replay
    material in any content is that of a code record that is there, is not used up and names the
    key. If the clock does not go backwards:
    * a key is answered with a second new code only once the first is past its retention, more than
      a day after it expired;
    * in any hour at most `maxPerHour` new codes are handed out under one policy generation;
    * at any time from now on, at most `maxOutstanding` codes of a content can be redeemed. -/
theorem cloud_issuance_consistent
    (h : exec (EnrollState.step crypto) .blank es = some s) :
    (∀ st, s.MayHold st → ∀ k is, st.issues.lookup k = some is → is.code ≠ "" →
      ∃ r, st.codes.lookup is.codeHash = some r ∧ r.consumedAt = 0 ∧ r.issueKey = k) ∧
    (Along (EnrollState.step crypto) Forward .blank es →
      (s.issued.Pairwise fun i j => i.issueKey = j.issueKey →
        j.expiresAt + cloudIssueRetention < i.mintedAt) ∧
      (∀ i ∈ s.issued, ∀ w, s.issued.countP (fun j => decide (j.generation = i.generation) &&
        decide (w < j.mintedAt ∧ j.mintedAt ≤ w + cloudRateWindow)) ≤ i.maxPerHour) ∧
      ∀ st, s.MayHold st → ∀ c, st.cloud = some c → ∀ t, s.clock ≤ t →
        st.cloudOutstanding t ≤ c.maxOutstanding) := by
  refine ⟨fun st hst k is his hcode => ?_, fun hforward => ?_⟩
  · obtain ⟨-, r, hr, hfree, -, hkey⟩ := consistent_exec h st hst k is his hcode
    exact ⟨r, hr, hfree, hkey⟩
  · have hinv := issueInv_exec h hforward
    refine ⟨hinv.remint, fun i hi w => ?_, fun st hst => (hinv.kept st hst).capped⟩
    refine Windows.countP_window_le hinv.admitted _ w fun j hj hgen => ?_
    exact le_of_eq (hinv.sameRate j hj i hi (of_decide_eq_true hgen))

/-! ## Two runs -/

/-- The request of one issue key. -/
def relayed (key code : String) (n : Nat) (commit : Commit) : EnrollEvent :=
  .issueCloudCode ⟨⟨key, "owner", "provider", firstChallenge, "S256", ["read"],
    ⟨"all_sessions", []⟩, "", ""⟩, code, instant n, [], commit⟩

/-- The policy is enabled with these caps. -/
def cloudEnabled (maxOutstanding maxPerHour : Int) : List EnrollEvent :=
  [openFile 0,
   .enableCloud ⟨["read"], ⟨"all_sessions", []⟩, "owner", "provider", maxOutstanding, maxPerHour⟩
     (instant 1) .ok]

/-- The operator makes a code by hand, which prunes. -/
def byHand (n : Nat) : EnrollEvent :=
  .newCode ⟨"label", ["read"], ⟨"all_sessions", []⟩, 0, "m", instant n, [], .ok⟩

/-- Two keys, and a retry of the first. -/
def twoKeys : List EnrollEvent :=
  cloudEnabled 0 0 ++ [relayed "k1" "a" 2 .ok, relayed "k2" "b" 3 .ok, relayed "k1" "c" 4 .ok]

theorem cloud_issuance_consistent_twoKeys :
    ∃ s, exec (EnrollState.step plainCrypto) .blank twoKeys = some s ∧
      s.issued.map Issue.code = ["b", "a"] ∧
      (s.issued.Pairwise fun i j => i.issueKey = j.issueKey →
        j.expiresAt + cloudIssueRetention < i.mintedAt) ∧
      ∀ st, s.MayHold st → ∀ c, st.cloud = some c → ∀ t, s.clock ≤ t →
        st.cloudOutstanding t ≤ c.maxOutstanding := by
  refine reaches_imp (P := fun s => s.issued.map Issue.code = ["b", "a"])
    (by decide +kernel) fun s hs hcodes => ?_
  obtain ⟨-, hbounds⟩ := cloud_issuance_consistent hs
  obtain ⟨hremint, -, hcap⟩ := hbounds (.of_check
    (q := fun s e => decide (Forward s e)) (fun _ _ => of_decide_eq_true) (by decide +kernel))
  exact ⟨hcodes, hremint, hcap⟩

/-- **Retention ends, and clocks go back.**
    * A day after the first code of a key expired, a prune drops its record and its tombstone, and
      the retry of the same request mints again.
    * Samples that were pruned are missing when the clock goes back: two codes in one hour, under a
      policy that allows one.
    * A code that had expired counts again when the clock goes back: two outstanding codes, under a
      policy that allows one. -/
theorem second_code_after_retention :
    (∃ s, exec (EnrollState.step plainCrypto) .blank (cloudEnabled 0 0 ++
        [relayed "k1" "a" 2 .ok, byHand 86710, relayed "k1" "b" 86711 .ok]) = some s ∧
      s.issued.map (fun i => (i.issueKey, i.code)) = [("k1", "b"), ("k1", "a")]) ∧
    (∃ s, exec (EnrollState.step plainCrypto) .blank (cloudEnabled 2 1 ++
        [relayed "k1" "a" 100 .ok, byHand 4000, relayed "k2" "b" 101 .ok]) = some s ∧
      s.issued.map (fun i => (i.generation, i.maxPerHour, i.mintedAt)) =
        [(1, 1, 102), (1, 1, 101)]) ∧
    ∃ s p c, exec (EnrollState.step plainCrypto) .blank (cloudEnabled 1 2 ++
        [relayed "k1" "a" 100 .ok, relayed "k2" "b" 500 .ok, byHand 200]) = some s ∧
      s.process = some p ∧ p.store.cloud = some c ∧
      c.maxOutstanding < p.store.cloudOutstanding s.clock := by
  simp only [exists_and_left]
  decide +kernel

end AgentMultiplexer.Direct.Enroll
