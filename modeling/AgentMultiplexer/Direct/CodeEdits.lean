import AgentMultiplexer.Direct.Enrollment

set_option autoImplicit false

/-! # Edits of the enrollment store

Most edits only use things up: they consume codes, clear replay material, remove what is past its
retention, revoke grants and turn the policy off. `Decay` says what such an edit leaves, and is a
preorder; what a rollback leaves is a decay of what the operation started from. What remains are the
edits that add something, each with a lemma of its own where its invariants are. -/

namespace AgentMultiplexer.Direct.Enroll

open AList GoMap List Option

/-! ## Records -/

/-- The record may have been used up, and is otherwise the same. -/
structure Ages (r r' : CodeRecord) : Prop where
  same : r' = { r with consumedAt := r'.consumedAt, clientID := r'.clientID }
  spent : r.consumedAt ≠ 0 → r'.consumedAt ≠ 0

theorem Ages.refl (r : CodeRecord) : Ages r r := ⟨rfl, id⟩

theorem Ages.trans {r r' r'' : CodeRecord} (h : Ages r r') (h' : Ages r' r'') : Ages r r'' where
  same := by
    have hfirst := h.same
    have hsecond := h'.same
    rw [hfirst] at hsecond
    exact hsecond
  spent hne := h'.spent (h.spent hne)

namespace Ages

variable {r r' : CodeRecord} (h : Ages r r')

include h

theorem perms : r'.perms = r.perms := by rw [h.same]

theorem resource : r'.resource = r.resource := by rw [h.same]

theorem expiresAt : r'.expiresAt = r.expiresAt := by rw [h.same]

theorem cloud : r'.cloud = r.cloud := by rw [h.same]

theorem challenge : r'.challenge = r.challenge := by rw [h.same]

theorem policyGen : r'.policyGen = r.policyGen := by rw [h.same]

theorem issueKey : r'.issueKey = r.issueKey := by rw [h.same]

theorem ticket : r'.ticket = r.ticket := by rw [h.same]

end Ages

theorem ages_consume (r : CodeRecord) (now : Int) : Ages r (Store.consume now r) := by
  unfold Store.consume
  split_ifs with hfree
  · exact ⟨rfl, fun hne => absurd hfree hne⟩
  · exact .refl r

theorem ages_spend {r : CodeRecord} (now : Instant) (clientID : String) :
    Ages r { r with consumedAt := now, clientID := clientID } :=
  ⟨rfl, fun _ => (Int.ne_of_lt now.2).symm⟩

/-- The policy may have been turned off, under a new generation, and lost samples of the past. -/
structure PolicyAges (now : Int) (c c' : CloudPolicy) : Prop where
  generation : c.generation ≤ c'.generation
  same : c'.generation = c.generation →
    c'.perms = c.perms ∧ c'.resource = c.resource ∧ c'.maxOutstanding = c.maxOutstanding ∧
      c'.maxPerHour = c.maxPerHour
  samples : ∀ w, now - cloudRateWindow ≤ w →
    c.issued.countP (fun t => w < t) ≤ c'.issued.countP fun t => w < t

theorem PolicyAges.refl (now : Int) (c : CloudPolicy) : PolicyAges now c c :=
  ⟨Nat.le_refl _, fun _ => ⟨rfl, rfl, rfl, rfl⟩, fun _ _ => Nat.le_refl _⟩

theorem PolicyAges.trans {now : Int} {c c' c'' : CloudPolicy} (h : PolicyAges now c c')
    (h' : PolicyAges now c' c'') : PolicyAges now c c'' where
  generation := h.generation.trans h'.generation
  same hgen := by
    have hmid : c'.generation = c.generation := by
      have := h.generation
      have := h'.generation
      omega
    obtain ⟨hp, hr, ho, hh⟩ := h.same hmid
    obtain ⟨hp', hr', ho', hh'⟩ := h'.same (hgen.trans hmid.symm)
    exact ⟨hp'.trans hp, hr'.trans hr, ho'.trans ho, hh'.trans hh⟩
  samples w hw := (h.samples w hw).trans (h'.samples w hw)

/-! ## Stores -/

/-- What an edit at this time leaves that only uses things up. -/
structure Decay (now : Int) (st st' : Store) : Prop where
  codes : ∀ k r', st'.codes.lookup k = some r' → ∃ r, st.codes.lookup k = some r ∧ Ages r r'
  issues : ∀ k is', st'.issues.lookup k = some is' →
    ∃ is, st.issues.lookup k = some is ∧ is' = { is with code := is'.code }
  tombstones : ∀ k is, st.issues.lookup k = some is →
    (∃ is', st'.issues.lookup k = some is') ∨ is.expiresAt + cloudIssueRetention < now
  unset : st.cloud = none → st'.cloud = none
  policy : ∀ c, st.cloud = some c → ∃ c', st'.cloud = some c' ∧ PolicyAges now c c'
  grants : ∀ id g', st'.grants.lookup id = some g' → ∃ g, st.grants.lookup id = some g

variable {k : String}

namespace Decay

variable {now : Int} {st st' st'' : Store}

theorem refl (now : Int) (st : Store) : Decay now st st where
  codes _ r h := ⟨r, h, .refl r⟩
  issues _ is h := ⟨is, h, rfl⟩
  tombstones _ is h := .inl ⟨is, h⟩
  unset h := h
  policy c h := ⟨c, h, .refl now c⟩
  grants _ g h := ⟨g, h⟩

section

variable (h : Decay now st st')

include h

theorem policy_before {c' : CloudPolicy} (hc' : st'.cloud = some c') :
    ∃ c, st.cloud = some c ∧ PolicyAges now c c' := by
  cases hc : st.cloud with
  | none => cases (h.unset hc).symm.trans hc'
  | some c =>
    obtain ⟨c₁, hc₁, hpolicy⟩ := h.policy c hc
    cases hc'.symm.trans hc₁
    exact ⟨c, rfl, hpolicy⟩

theorem trans (h' : Decay now st' st'') : Decay now st st'' where
  codes k r'' hr'' := by
    obtain ⟨r', hr', hages'⟩ := h'.codes k r'' hr''
    obtain ⟨r, hr, hages⟩ := h.codes k r' hr'
    exact ⟨r, hr, hages.trans hages'⟩
  issues k is'' his'' := by
    obtain ⟨is', his', heq'⟩ := h'.issues k is'' his''
    obtain ⟨is, his, heq⟩ := h.issues k is' his'
    rw [heq] at heq'
    exact ⟨is, his, heq'⟩
  tombstones k is his := by
    obtain ⟨is', his'⟩ | hold := h.tombstones k is his
    · obtain hkept | hold' := h'.tombstones k is' his'
      · exact .inl hkept
      · -- The tombstone in between is the same one, so it expires at the same time.
        obtain ⟨is₀, his₀, heq⟩ := h.issues k is' his'
        rw [his, some.injEq] at his₀
        rw [heq, ← his₀] at hold'
        exact .inr hold'
    · exact .inr hold
  unset hnone := h'.unset (h.unset hnone)
  policy c hc := by
    obtain ⟨c', hc', hages⟩ := h.policy c hc
    obtain ⟨c'', hc'', hages'⟩ := h'.policy c' hc'
    exact ⟨c'', hc'', hages.trans hages'⟩
  grants id g'' hg'' := by
    obtain ⟨g', hg'⟩ := h'.grants id g'' hg''
    exact h.grants id g' hg'

theorem codes_none (hnone : st.codes.lookup k = none) : st'.codes.lookup k = none := by
  cases hl : st'.codes.lookup k with
  | none => rfl
  | some r' =>
    obtain ⟨r, hr, -⟩ := h.codes k r' hl
    rw [hnone] at hr
    cases hr

theorem issues_none (hnone : st.issues.lookup k = none) : st'.issues.lookup k = none := by
  cases hl : st'.issues.lookup k with
  | none => rfl
  | some is' =>
    obtain ⟨is, his, -⟩ := h.issues k is' hl
    rw [hnone] at his
    cases his

theorem cloudGen_le : st.cloudGen ≤ st'.cloudGen := by
  cases hc : st.cloud with
  | none => simp [Store.cloudGen, hc]
  | some c =>
    obtain ⟨c', hc', hages⟩ := h.policy c hc
    simpa [Store.cloudGen, hc, hc'] using hages.generation

end

/-- The codes and grants are the same, and the issue records up to their replay material. -/
theorem of_issues (hcodes : st'.codes = st.codes) (hcloud : st'.cloud = st.cloud)
    (hgrants : st'.grants = st.grants) (hissues : ∀ k is', st'.issues.lookup k = some is' →
      ∃ is, st.issues.lookup k = some is ∧ is' = { is with code := is'.code })
    (hkept : ∀ k is, st.issues.lookup k = some is → ∃ is', st'.issues.lookup k = some is') :
    Decay now st st' where
  codes _ r h := ⟨r, hcodes ▸ h, .refl r⟩
  issues := hissues
  tombstones k is h := .inl (hkept k is h)
  unset h := hcloud.trans h
  policy c h := ⟨c, hcloud.trans h, .refl now c⟩
  grants _ g h := ⟨g, hgrants ▸ h⟩

theorem of_codes {codes : GoMap String CodeRecord}
    (h : ∀ k r', codes.lookup k = some r' → ∃ r, st.codes.lookup k = some r ∧ Ages r r') :
    Decay now st { st with codes := codes } :=
  { refl now st with codes := h }

theorem of_grants {grants : GoMap String EnrolledGrant}
    (h : ∀ id g', grants.lookup id = some g' → ∃ g, st.grants.lookup id = some g) :
    Decay now st { st with grants := grants } :=
  { refl now st with grants := h }

end Decay

/-! ## Replay material -/

variable {clientID : String}

namespace Store

variable {st : Store} {now : Int}

/-- The issue record under the key, with its replay material taken if asked. -/
def cleared (taken : Prop) [Decidable taken] (is : CloudIssue) : CloudIssue :=
  if taken then { is with code := "" } else is

theorem map_cleared_of_not {taken : Prop} [Decidable taken] (h : ¬ taken) (o : Option CloudIssue) :
    o.map (cleared taken) = o := by
  cases o with
  | none => rfl
  | some is => simp [cleared, h]

theorem takeReplay_rest (r : CodeRecord) : (st.takeReplay r).codes = st.codes ∧
    (st.takeReplay r).cloud = st.cloud ∧ (st.takeReplay r).grants = st.grants := by
  unfold takeReplay
  split_ifs
  · exact ⟨rfl, rfl, rfl⟩
  · split <;> exact ⟨rfl, rfl, rfl⟩

theorem lookup_takeReplay (r : CodeRecord) (k : String) : (st.takeReplay r).issues.lookup k =
      (st.issues.lookup k).map (cleared (r.issueKey ≠ "" ∧ r.issueKey = k)) := by
  unfold takeReplay
  by_cases hkey : r.issueKey = ""
  · rw [if_pos hkey]
    have hnot : ¬ (r.issueKey ≠ "" ∧ r.issueKey = k) := fun h => h.1 hkey
    exact (map_cleared_of_not hnot _).symm
  rw [if_neg hkey]
  by_cases hk : r.issueKey = k
  · subst hk
    cases hl : st.issues.lookup r.issueKey with
    | none => exact hl
    | some is => simp [cleared, hkey]
  · have hnot : ¬ (r.issueKey ≠ "" ∧ r.issueKey = k) := fun h => hk h.2
    rw [map_cleared_of_not hnot]
    cases hl : st.issues.lookup r.issueKey with
    | none => rfl
    | some is => exact lookup_insert_ne fun h => hk h.symm

theorem decay_takeReplay (r : CodeRecord) : Decay now st (st.takeReplay r) := by
  obtain ⟨hcodes, hcloud, hgrants⟩ := @takeReplay_rest st r
  refine .of_issues hcodes hcloud hgrants ?_ ?_
  · intro k is' h
    rw [lookup_takeReplay, map_eq_some_iff] at h
    obtain ⟨is, his, rfl⟩ := h
    refine ⟨is, his, ?_⟩
    unfold cleared
    split_ifs <;> rfl
  · intro k is h
    rw [lookup_takeReplay, h]
    exact ⟨_, rfl⟩

/-- The loop that takes the replay material of the records `p` picks. -/
def takeEach (p : CodeRecord → Bool) (st : Store) (e : Sigma fun _ : String => CodeRecord) :
    Store :=
  if p e.2 then st.takeReplay e.2 else st

/-- Replay material that is left was there before, and no record the loop picked has its key. -/
theorem lookup_takeFold {p : CodeRecord → Bool} {es : List (Sigma fun _ : String => CodeRecord)}
    {is' : CloudIssue} (h : (es.foldl (takeEach p) st).issues.lookup k = some is')
    (hcode : is'.code ≠ "") : st.issues.lookup k = some is' ∧
      ∀ e ∈ es, p e.2 = true → e.2.issueKey ≠ "" → e.2.issueKey ≠ k := by
  induction es generalizing st with
  | nil => exact ⟨h, by simp⟩
  | cons e es ih =>
    obtain ⟨hmid, hrest⟩ := ih h
    unfold takeEach at hmid
    by_cases hp : p e.2
    · rw [if_pos hp, lookup_takeReplay, map_eq_some_iff] at hmid
      obtain ⟨is, his, heq⟩ := hmid
      unfold cleared at heq
      split_ifs at heq with htaken
      · rw [← heq] at hcode
        exact absurd rfl hcode
      · refine ⟨heq ▸ his, fun e' he' hp' hne hk => ?_⟩
        obtain rfl | he' := mem_cons.mp he'
        · exact htaken ⟨hne, hk⟩
        · exact hrest e' he' hp' hne hk
    · rw [if_neg hp] at hmid
      refine ⟨hmid, fun e' he' hp' => ?_⟩
      obtain rfl | he' := mem_cons.mp he'
      · exact absurd hp' hp
      · exact hrest e' he' hp'

/-- What taking the replay material of one record does, the loop does. -/
theorem takeReplays_of {R : Store → Store → Prop} (hrefl : ∀ st, R st st)
    (htrans : ∀ {a b c}, R a b → R b c → R a c) (hstep : ∀ st r, R st (st.takeReplay r))
    (p : CodeRecord → Bool) : R st (st.takeReplays p) := by
  unfold takeReplays
  generalize st.codes.entries = es
  induction es generalizing st with
  | nil => exact hrefl st
  | cons e es ih =>
    refine htrans ?_ ih
    dsimp only
    split_ifs
    · exact hstep st e.2
    · exact hrefl st

theorem takeReplays_rest (p : CodeRecord → Bool) :
    (st.takeReplays p).codes = st.codes ∧ (st.takeReplays p).cloud = st.cloud :=
  takeReplays_of (R := fun st st' => st'.codes = st.codes ∧ st'.cloud = st.cloud)
    (fun _ => ⟨rfl, rfl⟩) (fun h h' => ⟨h'.1.trans h.1, h'.2.trans h.2⟩)
    (fun _ r => ⟨(takeReplay_rest r).1, (takeReplay_rest r).2.1⟩) p

theorem decay_takeReplays (p : CodeRecord → Bool) : Decay now st (st.takeReplays p) :=
  takeReplays_of (.refl now) .trans (fun _ r => decay_takeReplay r) p

theorem lookup_takeReplays {p : CodeRecord → Bool} {is' : CloudIssue}
    (h : (st.takeReplays p).issues.lookup k = some is') (hcode : is'.code ≠ "") :
    st.issues.lookup k = some is' ∧
      ∀ a r, st.codes.lookup a = some r → p r = true → r.issueKey ≠ "" → r.issueKey ≠ k := by
  obtain ⟨hbefore, hes⟩ := lookup_takeFold h hcode
  exact ⟨hbefore, fun a r hr => hes ⟨a, r⟩ (mem_entries_iff.mpr hr)⟩

/-! ## Pruning, disabling and revoking -/

theorem decay_filterCodes (keep : String → CodeRecord → Bool) :
    Decay now st { st with codes := st.codes.filter keep } :=
  .of_codes fun _ r' h => ⟨r', (lookup_filter_eq_some.mp h).1, .refl r'⟩

theorem decay_mapCodes {f : String → CodeRecord → CodeRecord} (hf : ∀ k r, Ages r (f k r)) :
    Decay now st { st with codes := st.codes.mapVal f } := by
  refine .of_codes fun k r' h => ?_
  obtain ⟨r, hr, rfl⟩ := lookup_mapVal_eq_some.mp h
  exact ⟨r, hr, hf k r⟩

theorem decay_filterGrants (keep : String → EnrolledGrant → Bool) :
    Decay now st { st with grants := st.grants.filter keep } :=
  .of_grants fun _ g' h => ⟨g', (lookup_filter_eq_some.mp h).1⟩

theorem decay_mapGrants (f : String → EnrolledGrant → EnrolledGrant) :
    Decay now st { st with grants := st.grants.mapVal f } := by
  refine .of_grants fun id g' h => ?_
  obtain ⟨g, hg, -⟩ := lookup_mapVal_eq_some.mp h
  exact ⟨g, hg⟩

/-- The samples a prune keeps are those that a later window can hold. -/
theorem countP_filter_window (issued : List Int) {w : Int} (hw : now - cloudRateWindow ≤ w) :
    issued.countP (fun t => w < t) ≤
      (issued.filter fun t => now - cloudRateWindow < t).countP fun t => w < t := by
  rw [countP_filter]
  refine countP_mono_left fun t _ ht => ?_
  simp only [decide_eq_true_eq] at ht
  simp only [Bool.and_eq_true, decide_eq_true_eq]
  omega

theorem decay_pruneCloud : Decay now st (st.pruneCloud now) where
  codes _ r h := ⟨r, h, .refl r⟩
  issues k is' h := by
    have hmap := (lookup_filter_eq_some.mp h).1
    obtain ⟨is, his, rfl⟩ := lookup_mapVal_eq_some.mp hmap
    refine ⟨is, his, ?_⟩
    split_ifs <;> rfl
  tombstones k is h := by
    by_cases hold : is.expiresAt + cloudIssueRetention < now
    · exact .inr hold
    refine .inl ⟨_, lookup_filter_eq_some.mpr ⟨by rw [lookup_mapVal, h, map_some], ?_⟩⟩
    have hexp : (if is.expiresAt ≤ now then { is with code := "" } else is).expiresAt =
        is.expiresAt := by split_ifs <;> rfl
    simp [hexp, hold]
  unset h := by simp [pruneCloud, h]
  policy c h := by
    refine ⟨{ c with issued := c.issued.filter fun t => now - cloudRateWindow < t }, ?_, ?_⟩
    · simp [pruneCloud, h]
    · exact ⟨Nat.le_refl _, fun _ => ⟨rfl, rfl, rfl, rfl⟩,
        fun w hw => countP_filter_window c.issued hw⟩
  grants _ g h := ⟨g, h⟩

theorem decay_prune (leased : List String) : Decay now st (st.prune leased now) :=
  (((decay_takeReplays _).trans (decay_filterCodes _)).trans decay_pruneCloud).trans
    (decay_filterGrants _)

theorem ages_consumeCloud (r : CodeRecord) : Ages r (if r.cloud then consume now r else r) := by
  split_ifs
  · exact ages_consume r now
  · exact .refl r

theorem decay_setPolicy {c c' : CloudPolicy} (hc : st.cloud = some c) (h : PolicyAges now c c') :
    Decay now st { st with cloud := some c' } :=
  { Decay.refl now st with
    unset := fun hnone => by rw [hc] at hnone; cases hnone
    policy := fun c₀ h₀ => by
      rw [hc, some.injEq] at h₀
      exact ⟨c', rfl, h₀ ▸ h⟩ }

theorem policyAges_off (c : CloudPolicy) : PolicyAges now c
    (if c.enabled then { c with enabled := false, generation := c.generation + 1 } else c) := by
  split_ifs
  · exact ⟨Nat.le_succ _, fun h => absurd h (Nat.succ_ne_self _), fun _ _ => Nat.le_refl _⟩
  · exact .refl now c

theorem decay_disableCloud : Decay now st (st.disableCloud now) := by
  unfold disableCloud
  split
  next => exact .refl now st
  next c hc =>
  exact ((decay_setPolicy hc (policyAges_off c)).trans
    (decay_mapCodes fun _ r => ages_consumeCloud r)).trans (decay_takeReplays _)

theorem decay_revoke (clients : List String) : Decay now st (st.revoke clients now) :=
  decay_mapGrants _

theorem decay_revokeAll : Decay now st (st.revokeAll now) :=
  (((decay_mapGrants _).trans (decay_mapCodes fun _ r => ages_consume r now)).trans
    (decay_takeReplays _)).trans decay_disableCloud

/-! ## Codes that are used up, and rollbacks -/

variable {key : String}

theorem decay_insertCode {r r' : CodeRecord} (hr : st.codes.lookup key = some r)
    (h : Ages r r') : Decay now st { st with codes := st.codes.insert key r' } :=
  .of_codes (forall_insert ⟨r, hr, h⟩ fun _ r₁ hr₁ => ⟨r₁, hr₁, .refl r₁⟩)

variable {r : CodeRecord}

theorem decay_spoil {t : Instant} (hr : st.codes.lookup key = some r) :
    Decay now st (st.spoil key r t) :=
  (decay_insertCode hr (ages_spend t r.clientID)).trans (decay_takeReplay r)

theorem decay_eraseCode : Decay now st { st with codes := (st.codes.insert key r).erase key } := by
  refine .of_codes fun k r' h => ?_
  exact ⟨r', lookup_of_erase_insert h, .refl r'⟩

variable {is : CloudIssue} {codeHash keyHash : String}

theorem decay_cancelMint (hnone : st.issues.lookup keyHash = none) : Decay now st { st with
      codes := (st.codes.insert codeHash r).erase codeHash
      issues := (st.issues.insert keyHash is).erase keyHash } := by
  refine decay_eraseCode.trans (.of_issues rfl rfl rfl ?_ ?_)
  · intro k is' h
    exact ⟨is', lookup_of_erase_insert h, rfl⟩
  intro k is' h
  have hne : k ≠ keyHash := by
    rintro rfl
    rw [hnone] at h
    cases h
  exact ⟨is', by rw [lookup_erase_ite, if_neg hne, lookup_insert_ite, if_neg hne, h]⟩

theorem decay_clearIssue (his : st.issues.lookup key = some is) :
    Decay now st { st with issues := st.issues.insert key { is with code := "" } } := by
  refine .of_issues rfl rfl rfl ?_ ?_
  · exact forall_insert ⟨is, his, rfl⟩ fun k is' h => ⟨is', h, rfl⟩
  · exact fun k is' h => exists_lookup_insert h

theorem unmint_eq {t : Int}
    (hr : st.codes.lookup codeHash = some r) (his : st.issues.lookup keyHash = some is) :
    st.unmint codeHash keyHash t = { st with
      codes := st.codes.insert codeHash { r with consumedAt := t }
      issues := st.issues.insert keyHash { is with code := "" } } := by
  simp only [unmint, hr, his]

/-! ## Exchanges -/

theorem restoreReplay_rest (r : CodeRecord) (code : String) :
    (st.restoreReplay r code).codes = st.codes ∧ (st.restoreReplay r code).cloud = st.cloud ∧
      (st.restoreReplay r code).grants = st.grants := by
  unfold restoreReplay
  split
  · exact ⟨rfl, rfl, rfl⟩
  · split_ifs <;> exact ⟨rfl, rfl, rfl⟩

theorem lookup_restore_take (st' : Store) (r : CodeRecord) (k : String)
    (h : st'.issues = (st.takeReplay r).issues) :
    (st'.restoreReplay r (st.replayOf r)).issues.lookup k = st.issues.lookup k := by
  have hlook : ∀ k, st'.issues.lookup k =
      (st.issues.lookup k).map (cleared (r.issueKey ≠ "" ∧ r.issueKey = k)) := by
    intro k
    rw [h, lookup_takeReplay]
  have hother (hnot : ¬ (r.issueKey ≠ "" ∧ r.issueKey = k)) :
      st'.issues.lookup k = st.issues.lookup k := by
    rw [hlook, map_cleared_of_not hnot]
  by_cases hkey : r.issueKey = ""
  · -- Nothing was taken, and there is nothing to put back.
    have hsame := hother fun h => h.1 hkey
    have hempty : st.replayOf r = "" := by rw [replayOf, if_pos hkey]
    unfold restoreReplay
    split
    · exact hsame
    · rw [if_neg (by simp [hempty])]
      exact hsame
  · cases his : st.issues.lookup r.issueKey with
    | none =>
      have hnone : st'.issues.lookup r.issueKey = none := by rw [hlook, his, map_none]
      simp only [restoreReplay, hnone]
      by_cases hk : r.issueKey = k
      · rw [← hk, hnone, his]
      · exact hother fun h => hk h.2
    | some is =>
      have hsome : st'.issues.lookup r.issueKey = some { is with code := "" } := by
        rw [hlook, his, map_some, cleared, if_pos ⟨hkey, rfl⟩]
      have hcode : st.replayOf r = is.code := by
        rw [replayOf, if_neg hkey, his, map_some, getD_some]
      simp only [restoreReplay, hsome, hcode]
      by_cases hk : r.issueKey = k
      · subst hk
        split_ifs with hne
        · rw [lookup_insert, his]
        rw [hsome, his]
        rw [← not_not.mp hne]
      · have hk' : k ≠ r.issueKey := fun h => hk h.symm
        have hsame := hother fun h => hk h.2
        split_ifs
        · rw [lookup_insert_ne hk', hsame]
        · exact hsame

section

variable (key : String) (r : CodeRecord) (clientID : String) (t : Int)

theorem exchange_issues : (st.exchange key r clientID t).issues = (st.takeReplay r).issues := rfl

theorem exchange_codes : (st.exchange key r clientID t).codes =
      st.codes.insert key { r with consumedAt := t, clientID := clientID } := by
  simp only [exchange, takeReplay_rest]

theorem exchange_cloud : (st.exchange key r clientID t).cloud = st.cloud := (takeReplay_rest r).2.1

theorem exchange_grants :
    (st.exchange key r clientID t).grants = st.grants.insert clientID r.grant := by
  simp only [exchange, takeReplay_rest]

end

theorem decay_exchange {t : Instant} (hr : st.codes.lookup key = some r) :
    Decay now st { st.exchange key r clientID t with grants := st.grants } := by
  have huse : Decay now (st.takeReplay r) { st.takeReplay r with
      codes := (st.takeReplay r).codes.insert key { r with consumedAt := t, clientID := clientID } } :=
    decay_insertCode (by rw [(takeReplay_rest r).1, hr]) (ages_spend t clientID)
  refine ((decay_takeReplay r).trans huse).trans (.of_grants fun id g h => ⟨g, ?_⟩)
  rw [(takeReplay_rest r).2.2]
  exact h

theorem lookup_unexchange_issues (key : String) (r : CodeRecord) (clientID : String) (t : Int)
    (k : String) :
    ((st.exchange key r clientID t).unexchange key r clientID (st.replayOf r)).issues.lookup k =
      st.issues.lookup k :=
  lookup_restore_take { st.exchange key r clientID t with
    codes := (st.exchange key r clientID t).codes.insert key
      { r with consumedAt := 0, clientID := "" } } r k rfl

theorem decay_unexchange {t : Int} (hr : st.codes.lookup key = some r) (hfree : r.consumedAt = 0) :
    Decay now st ((st.exchange key r clientID t).unexchange key r clientID (st.replayOf r)) where
  codes k r' h := by
    simp only [unexchange, restoreReplay_rest, exchange_codes, lookup_insert_ite] at h
    split_ifs at h with hk
    · cases h
      exact ⟨r, hk ▸ hr, rfl, fun hne => absurd hfree hne⟩
    · exact ⟨r', h, .refl r'⟩
  issues k is' h := ⟨is', by rw [← h, lookup_unexchange_issues], rfl⟩
  tombstones k is h := .inl ⟨is, by rw [lookup_unexchange_issues, h]⟩
  unset h := by simp only [unexchange, restoreReplay_rest, exchange_cloud, h]
  policy c h := ⟨c, by simp only [unexchange, restoreReplay_rest, exchange_cloud, h], .refl now c⟩
  grants id g h := by
    simp only [unexchange, restoreReplay_rest, exchange_grants] at h
    exact ⟨g, lookup_of_erase_insert h⟩

end Store

/-! ## Consistent replay material -/

/-- Replay material is that of a code record that is not used up and names the key. -/
def Store.Consistent (st : Store) : Prop :=
  ∀ k is, st.issues.lookup k = some is → is.code ≠ "" →
    k ≠ "" ∧ ∃ r, st.codes.lookup is.codeHash = some r ∧ r.consumedAt = 0 ∧ r.cloud = true ∧
      r.issueKey = k

/-- An edit that only uses things up, and keeps the replay material consistent. -/
structure Worn (now : Int) (st st' : Store) : Prop where
  decay : Decay now st st'
  consistent : st.Consistent → st'.Consistent

theorem Worn.refl (now : Int) (st : Store) : Worn now st st := ⟨.refl now st, id⟩

theorem Worn.trans {now : Int} {st st' st'' : Store} (h : Worn now st st')
    (h' : Worn now st' st'') : Worn now st st'' :=
  ⟨h.decay.trans h'.decay, fun hst => h'.consistent (h.consistent hst)⟩

namespace Store

variable {st st' : Store} {now : Int}

theorem Consistent.of_eq (h : st.Consistent) (hcodes : st'.codes = st.codes)
    (hissues : st'.issues = st.issues) : st'.Consistent := by
  unfold Consistent
  rw [hcodes, hissues]
  exact h

/-- Replay material whose code record stays as it was. -/
theorem Consistent.of_kept (h : st.Consistent)
    (hkept : ∀ k is, st'.issues.lookup k = some is → is.code ≠ "" →
      st.issues.lookup k = some is ∧ ∀ r, st.codes.lookup is.codeHash = some r →
        r.cloud = true → r.issueKey = k → k ≠ "" → st'.codes.lookup is.codeHash = some r) :
    st'.Consistent := by
  intro k is his hcode
  obtain ⟨hbefore, hrec⟩ := hkept k is his hcode
  obtain ⟨hk, r, hr, hfree, hcloud, hkey⟩ := h k is hbefore hcode
  exact ⟨hk, r, hrec r hr hcloud hkey hk, hfree, hcloud, hkey⟩

theorem consistent_prune (leased : List String) (h : st.Consistent) :
    (st.prune leased now).Consistent := by
  refine h.of_kept fun k is his hcode => ?_
  -- What the loop over the issue records left is not expired, and was left by the first loop.
  have hmap := (lookup_filter_eq_some.mp his).1
  obtain ⟨is₀, his₀, heq⟩ := lookup_mapVal_eq_some.mp hmap
  split_ifs at heq with hexp
  · rw [← heq] at hcode
    exact absurd rfl hcode
  subst heq
  obtain ⟨hbefore, hlive⟩ := lookup_takeReplays his₀ hcode
  refine ⟨hbefore, fun r hr _ hkey hk => ?_⟩
  refine lookup_filter_eq_some.mpr ⟨by rw [(takeReplays_rest _).1, hr], ?_⟩
  have hage : ¬ r.expiresAt ≤ now := fun hle =>
    hlive is₀.codeHash r hr (decide_eq_true hle) (hkey ▸ hk) hkey
  have hlater : ¬ r.expiresAt + codeRetention < now := by
    unfold codeRetention
    omega
  simp [hlater]

theorem worn_prune (leased : List String) : Worn now st (st.prune leased now) :=
  ⟨decay_prune leased, consistent_prune leased⟩

/-- Once every code with replay material was picked, none is left. -/
theorem consistent_takeReplays {p : CodeRecord → Bool} (h : st.Consistent)
    (hissues : st'.issues = st.issues) (hpick : ∀ a r, st.codes.lookup a = some r → r.cloud = true →
      ∃ r', st'.codes.lookup a = some r' ∧ p r' = true ∧ r'.issueKey = r.issueKey) :
    (st'.takeReplays p).Consistent := by
  intro k is his hcode
  obtain ⟨hbefore, hleft⟩ := lookup_takeReplays his hcode
  rw [hissues] at hbefore
  obtain ⟨hk, r, hr, -, hcloud, hkey⟩ := h k is hbefore hcode
  obtain ⟨r', hr', hp, hkey'⟩ := hpick is.codeHash r hr hcloud
  have hsame : r'.issueKey = k := hkey'.trans hkey
  exact absurd hsame (hleft is.codeHash r' hr' hp (hsame ▸ hk))

theorem consistent_disableCloud (h : st.Consistent) : (st.disableCloud now).Consistent := by
  unfold disableCloud
  split
  next => exact h
  next c hc =>
  refine consistent_takeReplays h rfl fun a r hr hcloud => ?_
  have hages := ages_consume r now
  refine ⟨consume now r, ?_, hages.cloud.trans hcloud, hages.issueKey⟩
  simp only [lookup_mapVal, hr, map_some, hcloud, if_true]

theorem worn_disableCloud : Worn now st (st.disableCloud now) :=
  ⟨decay_disableCloud, consistent_disableCloud⟩

theorem worn_revoke (clients : List String) : Worn now st (st.revoke clients now) :=
  ⟨decay_revoke clients, fun h => h.of_eq rfl rfl⟩

theorem worn_revokeAll : Worn now st (st.revokeAll now) where
  decay := decay_revokeAll
  consistent h := by
    refine consistent_disableCloud (consistent_takeReplays h rfl fun a r hr _ => ?_)
    refine ⟨consume now r, ?_, rfl, (ages_consume r now).issueKey⟩
    simp only [lookup_mapVal, hr, map_some]

variable {key : String}

theorem consistent_use {r r' : CodeRecord} (hr : st.codes.lookup key = some r)
    (hcodes : st'.codes = st.codes.insert key r') (hissues : ∀ k, st'.issues.lookup k =
      (st.issues.lookup k).map (cleared (r.issueKey ≠ "" ∧ r.issueKey = k)))
    (h : st.Consistent) : st'.Consistent := by
  refine h.of_kept fun k is his hcode => ?_
  rw [hissues, map_eq_some_iff] at his
  obtain ⟨is₀, his₀, heq⟩ := his
  unfold cleared at heq
  split_ifs at heq with htaken
  · rw [← heq] at hcode
    exact absurd rfl hcode
  subst heq
  refine ⟨his₀, fun r₁ hr₁ _ hkey hk => ?_⟩
  have hne : is₀.codeHash ≠ key := by
    rintro heq
    rw [heq, hr, some.injEq] at hr₁
    exact htaken ⟨by rw [hr₁, hkey]; exact hk, by rw [hr₁, hkey]⟩
  rw [hcodes, lookup_insert_ne hne, hr₁]

variable {r : CodeRecord}

theorem worn_spoil {t : Instant} (hr : st.codes.lookup key = some r) :
    Worn now st (st.spoil key r t) where
  decay := decay_spoil hr
  consistent := consistent_use hr (takeReplay_rest r).1 fun k => lookup_takeReplay r k

/-- Codes that were not there before do not matter to the replay material. -/
theorem consistent_newCode (codes : GoMap String CodeRecord) (hnone : st.codes.lookup key = none)
    (hcodes : ∀ k, k ≠ key → codes.lookup k = st.codes.lookup k) (h : st.Consistent) :
    Consistent { st with codes := codes } := by
  refine h.of_kept fun k is his _ => ⟨his, fun r hr _ _ _ => ?_⟩
  have hne : is.codeHash ≠ key := by
    intro heq
    rw [heq, hnone] at hr
    cases hr
  exact (hcodes is.codeHash hne).trans hr

theorem worn_eraseCode (hnone : st.codes.lookup key = none) :
    Worn now st { st with codes := (st.codes.insert key r).erase key } where
  decay := decay_eraseCode
  consistent := consistent_newCode _ hnone fun k hk => by
    rw [lookup_erase_ne hk, lookup_insert_ne hk]

theorem worn_cancelMint {c : CloudPolicy} {req : IssueRequest} {ticket : Bool}
    {codeHash keyHash reqHash code : String} {t : Int} (hc : st.cloud = some c)
    (hcode : st.codes.lookup codeHash = none) (hkey : st.issues.lookup keyHash = none) : Worn now st
      ((st.mint c req ticket codeHash keyHash reqHash code t).cancelMint c codeHash keyHash) := by
  simp only [mint, cancelMint, ← hc]
  refine ⟨decay_cancelMint hkey, fun h => ?_⟩
  have hfirst := consistent_newCode ((st.codes.insert codeHash
    (cloudRecord req ticket c.generation keyHash t)).erase codeHash) hcode (fun k hk => by
      rw [lookup_erase_ne hk, lookup_insert_ne hk]) h
  refine hfirst.of_kept fun k is' his _ => ⟨?_, fun r hr _ _ _ => hr⟩
  exact lookup_of_erase_insert his

theorem worn_unexchange {t : Int} (hr : st.codes.lookup key = some r) (hfree : r.consumedAt = 0) :
    Worn now st ((st.exchange key r clientID t).unexchange key r clientID (st.replayOf r)) where
  decay := decay_unexchange hr hfree
  consistent h k is his hcode := by
    rw [lookup_unexchange_issues] at his
    obtain ⟨hk, r₁, hr₁, hfree₁, hcloud, hkey⟩ := h k is his hcode
    refine ⟨hk, ?_⟩
    simp only [unexchange, restoreReplay_rest, exchange_codes, lookup_insert_ite]
    split_ifs with hsame
    · rw [hsame, hr, some.injEq] at hr₁
      exact ⟨_, rfl, rfl, hr₁ ▸ hcloud, hr₁ ▸ hkey⟩
    · exact ⟨r₁, hr₁, hfree₁, hcloud, hkey⟩

theorem worn_consumeManual (t : Instant)
    (hr : st.codes.lookup key = some r) (hmanual : r.cloud = false) :
    Worn now st { st with codes := st.codes.insert key { r with consumedAt := t } } where
  decay := decay_insertCode hr (ages_spend t r.clientID)
  consistent h := by
    refine h.of_kept fun k is his _ => ⟨his, fun r₁ hr₁ hcloud _ _ => ?_⟩
    have hne : is.codeHash ≠ key := by
      intro heq
      rw [heq, hr, some.injEq] at hr₁
      rw [← hr₁, hmanual] at hcloud
      cases hcloud
    rw [lookup_insert_ne hne, hr₁]

theorem worn_unmint {codeHash keyHash : String} {is : CloudIssue} (t : Instant)
    (hr : st.codes.lookup codeHash = some r) (hkey : r.issueKey = keyHash)
    (his : st.issues.lookup keyHash = some is) : Worn now st (st.unmint codeHash keyHash t) where
  decay := by
    rw [unmint_eq hr his]
    exact (decay_insertCode hr (ages_spend t r.clientID)).trans (decay_clearIssue his)
  consistent h := by
    rw [unmint_eq hr his]
    refine h.of_kept fun k is' his' hcode => ?_
    simp only [lookup_insert_ite] at his' ⊢
    split_ifs at his' with hk
    · cases his'
      exact absurd rfl hcode
    refine ⟨his', fun r₁ hr₁ _ hkey₁ _ => ?_⟩
    have hne : is'.codeHash ≠ codeHash := by
      intro heq
      rw [heq, hr, some.injEq] at hr₁
      exact hk (by rw [← hkey₁, ← hr₁, hkey])
    rw [if_neg hne, hr₁]

end Store

end AgentMultiplexer.Direct.Enroll
