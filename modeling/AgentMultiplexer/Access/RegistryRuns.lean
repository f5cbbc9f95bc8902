import AgentMultiplexer.Theory.Transition
import AgentMultiplexer.Access.Registry

set_option autoImplicit false

/-! # Runs of the credential registry

A run is a list of calls, each with the environment's choices, from the empty registry; `close` may
come at any point and makes every later call fail. A call is enabled when the key it draws is new,
which is all that is assumed of the random source.

Two results hold along every run: the invariant of the registry, and that invalidation is
final. The second rests on `RegistryFile.Retains`: no call forgets a record, changes whose it is,
or clears a revocation. -/

namespace AgentMultiplexer.Access

/-! ## The invariant of the credential registry

Every operation either leaves the registry alone, issues a key over a predecessor that is the
subject's latest record, or revokes the subject's current record. `call_effect` says that
once; the invariant `RegistryFile.Ok` is then preserved by the two changes, and by every run. -/

section

open GoMap Option RegistryFile CredentialRecord

/-! ## Keys of subjects -/

theorem SubjectKind.text_no_nul (kind : SubjectKind) : '\x00' ∉ kind.text.toList := by
  cases kind <;> decide

theorem SubjectKind.text_injective : Function.Injective SubjectKind.text := by
  intro a b h
  cases a <;> cases b <;> first | rfl | exact absurd h (by decide)

variable {id : String} {kind' : SubjectKind}

/-- Distinct subjects have distinct keys in `Current`: no kind contains the separator. -/
theorem currentKey_inj {kind : SubjectKind} {id' : String} :
    currentKey kind id = currentKey kind' id' ↔ kind = kind' ∧ id = id' := by
  constructor
  · intro h
    have hl : kind.text.toList ++ '\x00' :: id.toList =
        kind'.text.toList ++ '\x00' :: id'.toList := by
      have := congrArg String.toList h
      simpa [currentKey, String.toList_append] using this
    obtain ⟨hkind, hid⟩ := GoStrings.append_sep_inj kind.text_no_nul kind'.text_no_nul hl
    exact ⟨SubjectKind.text_injective (String.toList_inj.mp hkind), String.toList_inj.mp hid⟩
  · rintro ⟨rfl, rfl⟩
    rfl

/-! ## The invariant -/

/-- Key `k` holds generation `g` of the subject. -/
def RegistryFile.HasGeneration (r : RegistryFile) (kind : SubjectKind) (id : String) (g : Nat)
    (k : String) : Prop :=
  ∃ rec, r.records.lookup k = some rec ∧ rec.kind = kind ∧ rec.subjectID = id ∧
    rec.generation = g

/-- The generations of the subject's records are exactly `1..n`, each held by one key. -/
def RegistryFile.GenerationsUpTo (r : RegistryFile) (kind : SubjectKind) (id : String) (n : Nat) :
    Prop :=
  (∀ g k, r.HasGeneration kind id g k → 1 ≤ g ∧ g ≤ n) ∧
    ∀ g, 1 ≤ g → g ≤ n → ∃! k, r.HasGeneration kind id g k

/-- `rec` is filed under its own key and is the subject's record of the highest generation. -/
def RegistryFile.Latest (r : RegistryFile) (kind : SubjectKind) (id : String)
    (rec : CredentialRecord) : Prop :=
  r.records.lookup rec.keyID = some rec ∧ rec.kind = kind ∧ rec.subjectID = id ∧
    ∀ g k, r.HasGeneration kind id g k → g ≤ rec.generation

structure RegistryFile.Ok (r : RegistryFile) : Prop where
  keyed : ∀ k rec, r.records.lookup k = some rec → rec.keyID = k ∧ k ≠ ""
  generations : ∀ kind id, ∃ n, r.GenerationsUpTo kind id n
  currentLatest : ∀ kind id k, r.current.lookup (currentKey kind id) = some k →
    ∃ rec, rec.keyID = k ∧ rec.revokedAt = 0 ∧ r.Latest kind id rec
  unrevokedCurrent : ∀ k rec, r.records.lookup k = some rec → rec.revokedAt = 0 →
    r.current.lookup (currentKey rec.kind rec.subjectID) = some k

theorem RegistryFile.ok_empty : empty.Ok where
  keyed := by simp [empty]
  generations kind id := ⟨0, by simp [RegistryFile.HasGeneration, empty], by omega⟩
  currentLatest := by simp [empty]
  unrevokedCurrent := by simp [empty]

namespace RegistryFile

variable {r : RegistryFile} {kind : SubjectKind} {id : String} {rec : CredentialRecord}

theorem not_issued_hasGeneration (h : r.subjectWasIssuedLocked kind id = false) (g : Nat)
    (k : String) : ¬ r.HasGeneration kind id g k := by
  rintro ⟨rec, hl, hkind, hid, -⟩
  rw [subjectWasIssuedLocked, List.any_eq_false] at h
  exact h _ (mem_entries_iff.mpr hl) (ofSubject_iff.mpr ⟨hkind, hid⟩)

theorem latest_hasGeneration (h : r.Latest kind id rec) :
    r.HasGeneration kind id rec.generation rec.keyID :=
  ⟨rec, h.1, h.2.1, h.2.2.1, rfl⟩

theorem GenerationsUpTo.latest {n : Nat} (hn : r.GenerationsUpTo kind id n)
    (hl : r.Latest kind id rec) : n = rec.generation := by
  have hle := hn.1 _ _ (latest_hasGeneration hl)
  obtain ⟨k, hk, -⟩ := hn.2 n (by omega) le_rfl
  have hge := hl.2.2.2 n k hk
  omega

theorem Ok.current_latest (h : r.Ok) (hcur : r.currentID kind id = rec.keyID)
    (hl : r.records.lookup rec.keyID = some rec) : r.Latest kind id rec := by
  have hlookup := lookup_of_get hcur (h.keyed _ _ hl).2
  obtain ⟨rec', hkey, -, hlatest⟩ := h.currentLatest kind id _ hlookup
  obtain rfl : rec' = rec := mem_unique hlatest.1 (hkey ▸ hl)
  exact hlatest

end RegistryFile

/-! ## The newest record -/

variable {kind : SubjectKind}

/-- One turn of the loop on a record of the subject: unless it fails it goes on with the newer of
    the record and the newest one so far. -/
theorem lastRecordLoop_cons_ok {k : String} {rec cand : CredentialRecord}
    {rest : List (Sigma fun _ : String => CredentialRecord)} {last : Option CredentialRecord}
    (hs : cand.ofSubject kind id)
    (h : lastRecordLoop kind id last (⟨k, cand⟩ :: rest) = .ok (some rec)) :
    cand.keyID = k ∧ ∃ m, lastRecordLoop kind id (some m) rest = .ok (some rec) ∧
      (m = cand ∨ last = some m) ∧ cand.generation ≤ m.generation ∧
      ∀ newest, last = some newest → newest.generation ≤ m.generation := by
  simp only [lastRecordLoop, hs, Bool.not_true, Bool.false_eq_true, if_false] at h
  by_cases hk : cand.keyID = k
  swap
  · simp [hk] at h
  simp only [hk, ne_eq, not_true_eq_false, if_false] at h
  refine ⟨hk, ?_⟩
  cases last with
  | none => exact ⟨cand, h, .inl rfl, le_rfl, by simp⟩
  | some newest =>
    dsimp only at h
    by_cases hlt : newest.generation < cand.generation
    · rw [if_pos hlt] at h
      refine ⟨cand, h, .inl rfl, le_rfl, ?_⟩
      rintro _ ⟨⟩
      exact Nat.le_of_lt hlt
    · split_ifs at h
      refine ⟨newest, h, .inr rfl, Nat.le_of_not_lt hlt, ?_⟩
      rintro _ ⟨⟩
      exact le_rfl

/-- What the loop of `lastRecordLocked` returns is one of the records it went over (or the one it
    started with) and no record of the subject is of a higher generation. -/
theorem lastRecordLoop_ok {rec : CredentialRecord}
    (entries : List (Sigma fun _ : String => CredentialRecord)) (last : Option CredentialRecord)
    (h : lastRecordLoop kind id last entries = .ok (some rec)) :
    (last = some rec ∨ ⟨rec.keyID, rec⟩ ∈ entries ∧ rec.ofSubject kind id) ∧
      (∀ e ∈ entries, e.2.ofSubject kind id → e.2.generation ≤ rec.generation) ∧
      ∀ newest, last = some newest → newest.generation ≤ rec.generation := by
  induction entries generalizing last with
  | nil =>
    simp only [lastRecordLoop, Except.ok.injEq] at h
    refine ⟨.inl h, by simp, fun newest hn => ?_⟩
    rw [h, some.injEq] at hn
    rw [hn]
  | cons e rest ih =>
    obtain ⟨k, cand⟩ := e
    by_cases hs : cand.ofSubject kind id
    · obtain ⟨rfl, m, hloop, hm, hcand, hnewest⟩ := lastRecordLoop_cons_ok hs h
      obtain ⟨hfrom, hmax, hle⟩ := ih (some m) hloop
      have hge := hle m rfl
      refine ⟨?_, ?_, fun n hn => Nat.le_trans (hnewest n hn) hge⟩
      · rcases hfrom with hrec | ⟨hmem, hsub⟩
        · cases hrec
          rcases hm with rfl | hlast
          · exact .inr ⟨List.mem_cons_self, hs⟩
          · exact .inl hlast
        · exact .inr ⟨List.mem_cons_of_mem _ hmem, hsub⟩
      · exact List.forall_mem_cons.mpr ⟨fun _ => Nat.le_trans hcand hge, hmax⟩
    · -- a record of another subject is skipped
      simp only [lastRecordLoop, hs, Bool.not_false, if_true] at h
      obtain ⟨hfrom, hmax, hlast⟩ := ih last h
      exact ⟨hfrom.imp_right fun hf => ⟨List.mem_cons_of_mem _ hf.1, hf.2⟩,
        List.forall_mem_cons.mpr ⟨fun hse => absurd hse hs, hmax⟩, hlast⟩

theorem RegistryFile.lastRecordLocked_latest {r : RegistryFile}
    {rec : CredentialRecord} (h : r.lastRecordLocked kind id = .ok rec) : r.Latest kind id rec := by
  rw [lastRecordLocked] at h
  split at h
  · cases h
  · cases h
  next last hloop =>
  cases h
  obtain ⟨hfrom, hmax, -⟩ := lastRecordLoop_ok _ _ hloop
  rcases hfrom with hnone | ⟨hmem, hs⟩
  · cases hnone
  obtain ⟨hkind, hid⟩ := ofSubject_iff.mp hs
  refine ⟨mem_entries_iff.mp hmem, hkind, hid, ?_⟩
  rintro g k ⟨other, hl, hkind', hid', rfl⟩
  exact hmax _ (mem_entries_iff.mpr hl) (ofSubject_iff.mpr ⟨hkind', hid'⟩)

/-! ## Issuing over the latest record -/

section

variable (rec : CredentialRecord)

include rec

@[simp] theorem CredentialRecord.revoke_rest (now : Int) : (rec.revoke now).keyID = rec.keyID ∧
    (rec.revoke now).kind = rec.kind ∧ (rec.revoke now).subjectID = rec.subjectID ∧
    (rec.revoke now).generation = rec.generation := by
  unfold revoke
  split <;> exact ⟨rfl, rfl, rfl, rfl⟩

theorem CredentialRecord.revoke_revokedAt_ne (now : ClockReading) :
    (rec.revoke now).revokedAt ≠ 0 := by
  have hnow := now.2
  unfold revoke
  split
  · exact Int.ne_of_gt hnow
  · next h => exact h

end

/-- What `issueLocked` may be asked to supersede: nothing, for a subject never issued, or the
    subject's latest record. -/
def RegistryFile.Predecessor (r : RegistryFile) (kind : SubjectKind) (id oldKeyID : String) :
    Prop :=
  (oldKeyID = "" ∧ r.subjectWasIssuedLocked kind id = false) ∨
    ∃ rec, r.Latest kind id rec ∧ rec.keyID = oldKeyID

/-- The registry `issueLocked` commits. -/
def RegistryFile.issue (r : RegistryFile) (kind : SubjectKind) (id : String) (generation : Nat)
    (records : GoMap String CredentialRecord) (env : CallEnv) : RegistryFile where
  current := r.current.insert (currentKey kind id) env.keyID
  records := records.insert env.keyID (issuedRecord kind id generation env)

section Issue

variable {r : RegistryFile} {kind : SubjectKind} {id oldKeyID : String} {env : CallEnv}
  {generation : Nat} {records : GoMap String CredentialRecord}

theorem predecessor_subject (h : r.Ok) (hpred : r.Predecessor kind id oldKeyID)
    {rec : CredentialRecord} (hl : r.records.lookup oldKeyID = some rec) :
    rec.kind = kind ∧ rec.subjectID = id := by
  rcases hpred with ⟨hempty, -⟩ | ⟨old, hlatest, rfl⟩
  · exact absurd hempty (h.keyed _ _ hl).2
  · have : old = rec := mem_unique hlatest.1 hl
    exact this ▸ ⟨hlatest.2.1, hlatest.2.2.1⟩

variable (h : r.Ok)
  (hretire : retirePredecessor r kind id oldKeyID env.now = some (generation, records))

include h hretire

/-- Retiring changes the predecessor's revocation time and nothing else. -/
theorem retirePredecessor_lookup (k : String) : records.lookup k =
      (r.records.lookup k).map fun rec => if k = oldKeyID then rec.revoke env.now else rec := by
  unfold retirePredecessor at hretire
  split at hretire
  · next hempty =>
    obtain ⟨-, rfl⟩ : 1 = generation ∧ r.records = records := by simpa using hretire
    cases hl : r.records.lookup k with
    | none => rfl
    | some rec =>
      have hk : k ≠ oldKeyID := hempty ▸ (h.keyed k rec hl).2
      simp [hk]
  · split at hretire
    · cases hretire
    · next old hold =>
      split_ifs at hretire
      obtain ⟨-, rfl⟩ : old.generation + 1 = generation ∧
          r.records.insert oldKeyID (old.revoke env.now) = records := by
        simpa using hretire
      by_cases hk : k = oldKeyID
      · subst hk
        simp [hold]
      · simp [hk]

theorem retirePredecessor_generation (hpred : r.Predecessor kind id oldKeyID) :
    ∃ n, r.GenerationsUpTo kind id n ∧ generation = n + 1 := by
  rcases hpred with ⟨hempty, hissued⟩ | ⟨rec, hlatest, rfl⟩
  · obtain ⟨n, hn⟩ := h.generations kind id
    have hzero : n = 0 := by
      by_contra hpos
      obtain ⟨k, hk, -⟩ := hn.2 1 le_rfl (by omega)
      exact not_issued_hasGeneration hissued 1 k hk
    simp only [retirePredecessor, hempty, if_true, some.injEq, Prod.mk.injEq] at hretire
    exact ⟨n, hn, by omega⟩
  · obtain ⟨n, hn⟩ := h.generations kind id
    refine ⟨n, hn, ?_⟩
    rw [hn.latest hlatest]
    unfold retirePredecessor at hretire
    rw [if_neg (h.keyed _ _ hlatest.1).2, hlatest.1] at hretire
    dsimp only at hretire
    split_ifs at hretire
    simp only [some.injEq, Prod.mk.injEq] at hretire
    exact hretire.1.symm

/-- The records after an issue: the new one, and the old ones with the predecessor revoked. -/
theorem issue_lookup (k : String) : (r.issue kind id generation records env).records.lookup k =
      if k = env.keyID then some (issuedRecord kind id generation env)
      else (r.records.lookup k).map fun rec =>
        if k = oldKeyID then rec.revoke env.now else rec := by
  rw [issue, lookup_insert_ite, retirePredecessor_lookup h hretire]

variable (hfresh : env.keyID ∉ r.records)

include hfresh

theorem issue_lookup_old {k : String} {rec : CredentialRecord} (hl : r.records.lookup k = some rec) :
    (r.issue kind id generation records env).records.lookup k =
      some (if k = oldKeyID then rec.revoke env.now else rec) := by
  have hne : k ≠ env.keyID := fun he => hfresh (he ▸ mem_of_lookup hl)
  rw [issue_lookup h hretire, if_neg hne, hl, map_some]

theorem issue_hasGeneration {id' k : String} {g : Nat} :
    (r.issue kind id generation records env).HasGeneration kind' id' g k ↔
      (k = env.keyID ∧ kind = kind' ∧ id = id' ∧ generation = g) ∨
        r.HasGeneration kind' id' g k := by
  have hnone : r.records.lookup env.keyID = none := AList.lookup_eq_none.mpr hfresh
  simp only [RegistryFile.HasGeneration, issue_lookup h hretire]
  by_cases hk : k = env.keyID
  · subst hk
    simp [hnone, issuedRecord]
  simp only [hk, if_false, false_and, false_or, map_eq_some_iff]
  constructor
  · rintro ⟨_, ⟨rec, hl, rfl⟩, hrec⟩
    refine ⟨rec, hl, ?_⟩
    split at hrec <;> simpa using hrec
  · rintro ⟨rec, hl, hrec⟩
    refine ⟨_, ⟨rec, hl, rfl⟩, ?_⟩
    split <;> simpa using hrec

variable (hpred : r.Predecessor kind id oldKeyID)

include hpred

theorem issue_generations (kind' : SubjectKind) (id' : String) :
    ∃ n, (r.issue kind id generation records env).GenerationsUpTo kind' id' n := by
  simp only [RegistryFile.GenerationsUpTo, issue_hasGeneration h hretire hfresh]
  by_cases hsub : kind = kind' ∧ id = id'
  · obtain ⟨rfl, rfl⟩ := hsub
    obtain ⟨n, ⟨hbound, hexact⟩, rfl⟩ := retirePredecessor_generation h hretire hpred
    refine ⟨n + 1, ?_, ?_⟩
    · rintro g k (⟨-, -, -, rfl⟩ | hk)
      · omega
      · have := hbound g k hk
        omega
    intro g hg hgn
    by_cases hnew : g = n + 1
    · -- the top generation is held by the new key only
      refine ⟨env.keyID, .inl ⟨rfl, rfl, rfl, hnew.symm⟩, ?_⟩
      rintro k (⟨rfl, -⟩ | hk)
      · rfl
      · have := hbound g k hk
        omega
    · obtain ⟨k, hk, huniq⟩ := hexact g hg (by omega)
      refine ⟨k, .inr hk, ?_⟩
      rintro k' (⟨-, -, -, hg'⟩ | hk')
      · exact absurd hg'.symm hnew
      · exact huniq k' hk'
  · obtain ⟨n, hbound, hexact⟩ := h.generations kind' id'
    refine ⟨n, ?_, ?_⟩
    · rintro g k (⟨-, hkind, hid, -⟩ | hk)
      · exact absurd ⟨hkind, hid⟩ hsub
      · exact hbound g k hk
    intro g hg hgn
    obtain ⟨k, hk, huniq⟩ := hexact g hg hgn
    refine ⟨k, .inr hk, ?_⟩
    rintro k' (⟨-, hkind, hid, -⟩ | hk')
    · exact absurd ⟨hkind, hid⟩ hsub
    · exact huniq k' hk'

theorem issue_currentLatest (kind' : SubjectKind) (id' k : String)
    (hk : (r.issue kind id generation records env).current.lookup (currentKey kind' id') = some k) :
    ∃ rec, rec.keyID = k ∧ rec.revokedAt = 0 ∧
      (r.issue kind id generation records env).Latest kind' id' rec := by
  rw [issue, lookup_insert_ite] at hk
  simp only [currentKey_inj] at hk
  split at hk
  · next hsub =>
    obtain ⟨rfl, rfl⟩ := hsub
    obtain ⟨n, hn, rfl⟩ := retirePredecessor_generation h hretire hpred
    refine ⟨issuedRecord kind' id' (n + 1) env, some.inj hk, rfl, ?_, rfl, rfl, ?_⟩
    · rw [issue_lookup h hretire]
      simp [issuedRecord]
    · intro g k' hg
      rcases (issue_hasGeneration h hretire hfresh).mp hg with ⟨-, -, -, rfl⟩ | hg
      · exact le_rfl
      · exact Nat.le_succ_of_le (hn.1 g k' hg).2
  · next hsub =>
    obtain ⟨rec, hkey, hrev, hl, hkind, hid, hmax⟩ := h.currentLatest kind' id' k hk
    refine ⟨rec, hkey, hrev, ?_, hkind, hid, ?_⟩
    · have hold : rec.keyID ≠ oldKeyID := by
        intro he
        obtain ⟨hkind', hid'⟩ := predecessor_subject h hpred (he ▸ hl)
        exact hsub ⟨hkind.symm.trans hkind', hid.symm.trans hid'⟩
      rw [issue_lookup_old h hretire hfresh hl, if_neg hold]
    · intro g k' hg
      rcases (issue_hasGeneration h hretire hfresh).mp hg with ⟨-, hkind', hid', -⟩ | hg
      · exact absurd ⟨hkind'.symm, hid'.symm⟩ hsub
      · exact hmax g k' hg

/-- Issuing over the latest record, when no other key is current, keeps the invariant. -/
theorem RegistryFile.Ok.issue (hne : env.keyID ≠ "")
    (hcur : r.currentID kind id = "" ∨ r.currentID kind id = oldKeyID) :
    (r.issue kind id generation records env).Ok where
  keyed k rec hl := by
    rw [issue_lookup h hretire] at hl
    split at hl
    · next hk =>
      cases hl
      exact ⟨hk.symm, hk ▸ hne⟩
    · obtain ⟨rec', hl', rfl⟩ := map_eq_some_iff.mp hl
      have := h.keyed k rec' hl'
      split <;> simpa using this
  generations := issue_generations h hretire hfresh hpred
  currentLatest := issue_currentLatest h hretire hfresh hpred
  unrevokedCurrent k rec hl hrev := by
    rw [issue_lookup h hretire] at hl
    rw [RegistryFile.issue, lookup_insert_ite]
    split at hl
    · next hk =>
      cases hl
      simp [issuedRecord, hk]
    obtain ⟨rec', hl', rfl⟩ := map_eq_some_iff.mp hl
    split at hrev
    · exact absurd hrev (rec'.revoke_revokedAt_ne _)
    next hold =>
    rw [if_neg hold]
    have hcurrent := h.unrevokedCurrent k rec' hl' hrev
    split
    · -- an unrevoked record of the subject is its current one, hence the predecessor
      next hsub =>
      rw [hsub] at hcurrent
      have hid : r.currentID kind id = k := get_of_lookup hcurrent
      rcases hcur with hcur | hcur
      · exact absurd (hid.symm.trans hcur) (h.keyed k rec' hl').2
      · exact absurd (hid.symm.trans hcur) hold
    · exact hcurrent

end Issue

/-! ## Revoking the current record -/

/-- The registry `revokeLocked` commits. -/
def RegistryFile.revokeRecord (r : RegistryFile) (kind : SubjectKind) (id : String)
    (rec : CredentialRecord) (now : Int) : RegistryFile where
  current := r.current.erase (currentKey kind id)
  records := r.records.insert rec.keyID (rec.revoke now)

section Revoke

variable {r : RegistryFile} {kind : SubjectKind} {id : String} {rec : CredentialRecord}

theorem revokeRecord_hasGeneration (hl : r.records.lookup rec.keyID = some rec) (now : Int)
    {id' k : String} {g : Nat} :
    (r.revokeRecord kind id rec now).HasGeneration kind' id' g k ↔
      r.HasGeneration kind' id' g k := by
  simp only [RegistryFile.HasGeneration, revokeRecord, lookup_insert_ite]
  by_cases hk : k = rec.keyID
  · subst hk
    simp [hl]
  · simp [hk]

theorem RegistryFile.Ok.revoke (h : r.Ok) (hl : r.records.lookup rec.keyID = some rec)
    (hcur : r.currentID kind id = rec.keyID) (now : ClockReading) :
    (r.revokeRecord kind id rec now).Ok where
  keyed := forall_insert ⟨by simp, (h.keyed _ _ hl).2⟩ h.keyed
  generations kind' id' := by
    obtain ⟨n, hn⟩ := h.generations kind' id'
    refine ⟨n, ?_⟩
    simpa only [RegistryFile.GenerationsUpTo, revokeRecord_hasGeneration hl] using hn
  currentLatest kind' id' k hk := by
    obtain ⟨hne, hk⟩ := lookup_erase_eq_some.mp hk
    obtain ⟨rec', hkey, hrev, hl', hkind, hid, hmax⟩ := h.currentLatest kind' id' k hk
    refine ⟨rec', hkey, hrev, ?_, hkind, hid, ?_⟩
    · -- the revoked key was current for its own subject, which is not this one
      have hother : rec'.keyID ≠ rec.keyID := by
        intro he
        obtain rfl : rec' = rec := mem_unique hl' (he ▸ hl)
        obtain ⟨-, rfl, rfl, -⟩ := h.current_latest hcur hl
        exact hne (by rw [hkind, hid])
      rw [revokeRecord, lookup_insert_ite, if_neg hother, hl']
    · intro g k' hg
      exact hmax g k' ((revokeRecord_hasGeneration hl now.1).mp hg)
  unrevokedCurrent k rec' hl' hrev := by
    rw [revokeRecord, lookup_erase_ite]
    rcases lookup_insert_eq_some.mp hl' with ⟨-, rfl⟩ | ⟨hk, hl'⟩
    · exact absurd hrev (rec.revoke_revokedAt_ne _)
    have hcurrent := h.unrevokedCurrent k rec' hl' hrev
    split
    · next hsub =>
      rw [hsub] at hcurrent
      exact absurd ((get_of_lookup hcurrent).symm.trans hcur) hk
    · exact hcurrent

end Revoke

/-! ## What a call can do -/

theorem commitRegistry_cases (fits : RegistryFile → Bool) (r next : RegistryFile)
    (outcome : CommitOutcome) : ((commitRegistry fits r next outcome).committed = false ∧
        (commitRegistry fits r next outcome).registry = r) ∨
      ((commitRegistry fits r next outcome).committed = true ∧
        (commitRegistry fits r next outcome).registry = next) := by
  unfold commitRegistry
  split
  · exact .inl ⟨rfl, rfl⟩
  cases outcome with
  | notCommitted => exact .inl ⟨rfl, rfl⟩
  | committedWithError | ok => exact .inr ⟨rfl, rfl⟩

/-- Why an operation issues a key for the subject, and over which predecessor. -/
inductive RegistryFile.Issues (r : RegistryFile) (kind : SubjectKind) (id : String) :
    RegistryOp → String → Prop
  | first : r.currentID kind id = "" → r.subjectWasIssuedLocked kind id = false →
      Issues r kind id (.ensure kind id) ""
  | rotate (rec : CredentialRecord) : r.currentID kind id = rec.keyID →
      r.records.lookup rec.keyID = some rec → Issues r kind id (.rotate kind id) rec.keyID
  | renew (rec : CredentialRecord) : r.currentID kind id = rec.keyID →
      r.records.lookup rec.keyID = some rec →
      Issues r kind id (.renewExpired kind id rec.keyID) rec.keyID
  | regrant (rec : CredentialRecord) : r.currentID kind id = "" → r.Latest kind id rec →
      rec.revokedAt ≠ 0 → Issues r kind id (.regrant kind id rec.generation) rec.keyID

/-- Which operation revokes the record of the subject. -/
inductive RegistryFile.Revokes (kind : SubjectKind) (id : String) (rec : CredentialRecord) :
    RegistryOp → Prop
  | any : Revokes kind id rec (.revoke kind id)
  | exactly (p : Principal) : p.kind = kind → p.subjectID = id → p.keyID = rec.keyID →
      p.generation = rec.generation → Revokes kind id rec (.revokeCurrent p)

variable {op : RegistryOp} {r : RegistryFile} {kind : SubjectKind}

theorem RegistryFile.Issues.predecessor
    {oldKeyID : String} (h : r.Ok) (hi : r.Issues kind id op oldKeyID) :
    r.Predecessor kind id oldKeyID := by
  cases hi with
  | first _ hnew => exact .inl ⟨rfl, hnew⟩
  | rotate rec hcur hl | renew rec hcur hl => exact .inr ⟨rec, h.current_latest hcur hl, rfl⟩
  | regrant rec _ hlatest _ => exact .inr ⟨rec, hlatest, rfl⟩

theorem currentRecordLocked_ok {now : Int}
    {rec : CredentialRecord} (h : r.currentRecordLocked kind id now = .ok rec) :
    r.currentID kind id = rec.keyID ∧ r.records.lookup rec.keyID = some rec := by
  unfold currentRecordLocked at h
  dsimp only at h
  split at h
  · cases h
  split at h
  · cases h
  next rec' hl =>
  split_ifs at h with hsub
  cases h
  have hkey : rec.keyID = r.currentID kind id := by
    by_contra hk
    exact hsub (.inl hk)
  exact ⟨hkey.symm, hkey ▸ hl⟩

/-- What the body of an operation can do to the registry. -/
inductive CallEffect (r : RegistryFile) (op : RegistryOp) (env : CallEnv) : Outcome → Prop
  | unchanged {out : Outcome} : out.committed = false → out.registry = r → CallEffect r op env out
  | issued {out : Outcome} {kind : SubjectKind} {id oldKeyID : String} {generation : Nat}
      {records : GoMap String CredentialRecord} : out.committed = true →
      r.Issues kind id op oldKeyID →
      retirePredecessor r kind id oldKeyID env.now = some (generation, records) →
      out.registry = r.issue kind id generation records env → CallEffect r op env out
  | revoked {out : Outcome} {kind : SubjectKind} {id : String} {rec : CredentialRecord} :
      out.committed = true → RegistryFile.Revokes kind id rec op →
      r.currentID kind id = rec.keyID → r.records.lookup rec.keyID = some rec →
      rec.kind = kind → rec.subjectID = id →
      out.registry = r.revokeRecord kind id rec env.now → CallEffect r op env out

theorem CallEffect.refuse {env : CallEnv}
    (err : AccessError) : CallEffect r op env (.refuse r err) :=
  .unchanged rfl rfl

section

variable (fits : RegistryFile → Bool)

include fits

theorem CallEffect.issue {oldKeyID : String} (env : CallEnv) (hi : r.Issues kind id op oldKeyID) :
    CallEffect r op env (issueLocked fits r kind id oldKeyID env) := by
  unfold issueLocked
  dsimp only
  split
  · exact .refuse _
  cases hretire : retirePredecessor r kind id oldKeyID env.now with
  | none => exact .refuse _
  | some pair =>
    obtain ⟨generation, records⟩ := pair
    dsimp only
    split
    · exact .refuse _
    -- the failed publication only changes the error
    rcases commitRegistry_cases fits r (r.issue kind id generation records env)
      env.commit with ⟨hcom, hreg⟩ | ⟨hcom, hreg⟩
    · split <;> exact .unchanged hcom hreg
    · split <;> exact .issued hcom hi hretire hreg

theorem CallEffect.revoke (h : r.Ok) {expectedKeyID : String} (env : CallEnv)
    (hop : ∀ rec, r.currentID kind id = rec.keyID → r.records.lookup rec.keyID = some rec →
      RegistryFile.Revokes kind id rec op) :
    CallEffect r op env (revokeLocked fits r kind id expectedKeyID env) := by
  fun_cases revokeLocked with
  | case1 | case2 => exact .unchanged rfl rfl
  | case6 keyID _ _ rec hl hsub =>
    rw [not_or, not_not, not_not] at hsub
    have hkey : rec.keyID = keyID := (h.keyed _ _ hl).1
    rw [← hkey] at hl ⊢
    rcases commitRegistry_cases fits r (r.revokeRecord kind id rec env.now)
      env.commit with ⟨hcom, hreg⟩ | ⟨hcom, hreg⟩
    · exact .unchanged hcom hreg
    · exact .revoked hcom (hop rec hkey.symm hl) hkey.symm hl hsub.1 hsub.2 hreg
  | _ => exact .refuse _

/-- **What a call can do.** Every call leaves the registry alone, issues over the latest record for
    one of the four reasons, or revokes the current record. -/
theorem call_effect {a : FileAuthority} (h : a.registry.Ok)
    (op : RegistryOp) (env : CallEnv) : CallEffect a.registry op env (op.call fits a env) := by
  fun_cases op.call fits a env with
  | case1 | case2 => exact .refuse _
  | case3 _ kind id =>
    fun_cases ensureLocked with
    | case2 hcur hissued => exact .issue fits env (.first hcur (Bool.eq_false_iff.mpr hissued))
    | case4 => exact .unchanged rfl rfl
    | _ => exact .refuse _
  | case4 _ kind id =>
    fun_cases rotateLocked with
    | case1 => exact .refuse _
    | case2 rec hrec =>
      obtain ⟨hcur, hl⟩ := currentRecordLocked_ok hrec
      exact .issue fits env (.rotate rec hcur hl)
  | case5 _ kind id expected =>
    fun_cases regrantLocked with
    | case4 hcur rec hrec hmatch =>
      obtain ⟨hrev, hgen⟩ := not_or.mp hmatch
      obtain rfl := not_not.mp hgen
      exact .issue fits env (.regrant rec (not_not.mp hcur) (lastRecordLocked_latest hrec) hrev)
    | _ => exact .refuse _
  | case6 _ kind id expected =>
    fun_cases renewExpiredLocked with
    | case7 _ _ hexpected rec hl =>
      have hkey : rec.keyID = a.registry.currentID kind id := (h.keyed _ _ hl).1
      obtain rfl : rec.keyID = expected := hkey.trans (not_not.mp hexpected)
      exact .issue fits env (.renew rec hkey.symm (hkey ▸ hl))
    | _ => exact .refuse _
  | case7 => exact .revoke fits h env fun _ _ _ => .any
  | case8 _ p =>
    fun_cases revokeCurrentLocked with
    | case4 keyID hcur rec hl hmatch =>
      obtain ⟨-, hkeyID⟩ := not_or.mp hcur
      obtain ⟨hgen, -⟩ := not_or.mp hmatch
      refine .revoke fits h env fun rec' (hcur' : keyID = rec'.keyID) hl' => ?_
      have hsame : rec = rec' := mem_unique hl (hcur' ▸ hl')
      exact .exactly p rfl rfl ((not_not.mp hkeyID).symm.trans hcur')
        (hsame ▸ (not_not.mp hgen).symm)
    | _ => exact .refuse _

theorem RegistryFile.Ok.call {a : FileAuthority}
    (h : a.registry.Ok) (op : RegistryOp) (env : CallEnv) (hne : env.keyID ≠ "")
    (hfresh : env.keyID ∉ a.registry.records) : (op.call fits a env).registry.Ok := by
  rcases call_effect fits h op env with
    ⟨-, hreg⟩ | ⟨-, hi, hretire, hreg⟩ | ⟨-, -, hcur, hl, -, -, hreg⟩
  · rwa [hreg]
  · rw [hreg]
    refine h.issue hretire hfresh (hi.predecessor h) hne ?_
    cases hi with
    | first hcur | regrant _ hcur => exact .inl hcur
    | rotate _ hcur | renew _ hcur => exact .inr hcur
  · rw [hreg]
    exact h.revoke hl hcur env.now

end

end

open GoMap Transition FileAuthority RegistryFile Option

/-- One atomic section of the authority. -/
inductive AuthorityEvent
  | call (op : RegistryOp) (env : CallEnv)
  | close

def FileAuthority.step (fits : RegistryFile → Bool) (a : FileAuthority) :
    AuthorityEvent → Option FileAuthority
  | .call op env =>
    if env.keyID ≠ "" ∧ env.keyID ∉ a.registry.records then
      some { a with registry := (op.call fits a env).registry }
    else none
  | .close => some { a with closed := true }

def FileAuthority.init : FileAuthority := ⟨.empty, false⟩

variable {fits : RegistryFile → Bool} {a b : FileAuthority} {env : CallEnv} {op : RegistryOp}

theorem FileAuthority.step_call
    (h : a.step fits (.call op env) = some b) : env.keyID ≠ "" ∧ env.keyID ∉ a.registry.records ∧
      b = { a with registry := (op.call fits a env).registry } := by
  simp only [step] at h
  split_ifs at h with hdraw
  cases h
  exact ⟨hdraw.1, hdraw.2, rfl⟩

theorem FileAuthority.step_ok {e : AuthorityEvent} (h : a.registry.Ok)
    (hstep : a.step fits e = some b) : b.registry.Ok := by
  cases e with
  | call op env =>
    obtain ⟨hne, hfresh, rfl⟩ := step_call hstep
    exact h.call fits op env hne hfresh
  | close =>
    cases hstep
    exact h

theorem FileAuthority.run_ok {events : List AuthorityEvent}
    (h : exec (step fits) .init events = some a) : a.registry.Ok :=
  exec_invariant (fun a : FileAuthority => a.registry.Ok) (fun _ _ _ => step_ok) ok_empty h

/-- **The registry invariant.** After every run, for every subject: the generations of its records
    are exactly `1..n`, each held by one key; at most one of its records is unrevoked; its current
    key, when it has one, names that record, which is its own and of the highest generation. Every
    unrevoked record is its subject's current one, and a call whose commit did not happen leaves
    the registry as it was. -/
theorem registry_invariant (events : List AuthorityEvent)
    (h : exec (FileAuthority.step fits) .init events = some a) :
    (∀ kind id, ∃ n, a.registry.GenerationsUpTo kind id n) ∧
    (∀ k k' rec rec', a.registry.records.lookup k = some rec →
      a.registry.records.lookup k' = some rec' → rec.kind = rec'.kind →
      rec.subjectID = rec'.subjectID → rec.revokedAt = 0 → rec'.revokedAt = 0 → k = k') ∧
    (∀ kind id k, a.registry.current.lookup (currentKey kind id) = some k →
      ∃ rec, a.registry.records.lookup k = some rec ∧ rec.kind = kind ∧ rec.subjectID = id ∧
        rec.revokedAt = 0 ∧ ∀ g k', a.registry.HasGeneration kind id g k' → g ≤ rec.generation) ∧
    (∀ k rec, a.registry.records.lookup k = some rec → rec.revokedAt = 0 →
      a.registry.current.lookup (currentKey rec.kind rec.subjectID) = some k) ∧
    ∀ (op : RegistryOp) (env : CallEnv), (op.call fits a env).committed = false →
      (op.call fits a env).registry = a.registry := by
  have hok := run_ok h
  refine ⟨hok.generations, ?_, ?_, hok.unrevokedCurrent, ?_⟩
  · intro k k' rec rec' hl hl' hkind hid hrev hrev'
    have hcur := hok.unrevokedCurrent k rec hl hrev
    have hcur' := hok.unrevokedCurrent k' rec' hl' hrev'
    rw [← hkind, ← hid, hcur, some.injEq] at hcur'
    exact hcur'
  · intro kind id k hk
    obtain ⟨rec, rfl, hrev, hl, hkind, hid, hmax⟩ := hok.currentLatest kind id k hk
    exact ⟨rec, hl, hkind, hid, hrev, hmax⟩
  · intro op env hcom
    rcases call_effect fits hok op env with ⟨-, hreg⟩ | ⟨hyes, -⟩ | ⟨hyes, -⟩
    · exact hreg
    · rw [hyes] at hcom
      cases hcom
    · rw [hyes] at hcom
      cases hcom

/-- A call environment in which every file operation succeeds. -/
def CallEnv.clean (now : ClockReading) (keyID : String) : CallEnv where
  checkedAt := now
  now := now
  keyID := keyID
  publicKey := ""
  staged := true
  commit := .ok
  published := true
  republished := true

/-- A subject provisioned, rotated with a failing directory sync, and revoked. -/
def sampleEvents : List AuthorityEvent :=
  [.call (.ensure .session "s1") (.clean ⟨1000, by decide⟩ "aa"),
   .call (.rotate .session "s1")
     { CallEnv.clean ⟨2000, by decide⟩ "bb" with commit := .committedWithError },
   .call (.revoke .session "s1") (.clean ⟨3000, by decide⟩ "cc")]

theorem registry_invariant_sample :
    ∃ a, exec (FileAuthority.step fun _ => true) .init sampleEvents = some a ∧
      a.registry.records.entries.length = 2 ∧
      ∃ n, a.registry.GenerationsUpTo .session "s1" n := by
  have hrun : exec (step fun _ => true) .init sampleEvents = some _ := rfl
  exact ⟨_, hrun, by decide, (registry_invariant sampleEvents hrun).1 .session "s1"⟩

/-! ## Invalidation is final -/

/-- The principal is the current, unrevoked credential of its subject: what `validIn` checks,
    its lifetime apart. -/
def RegistryFile.Authorizes (r : RegistryFile) (p : Principal) : Prop :=
  ∃ rec, r.records.lookup p.keyID = some rec ∧ rec.subjectID = p.subjectID ∧ rec.kind = p.kind ∧
    rec.generation = p.generation ∧ r.currentID p.kind p.subjectID = p.keyID ∧ rec.revokedAt = 0

variable {p : Principal}

theorem RegistryFile.validIn_eq_none_iff {r : RegistryFile} {now : Int} :
    r.validIn now p = none ↔
      r.Authorizes p ∧ ∀ rec, r.records.lookup p.keyID = some rec → now < rec.notAfter := by
  unfold validIn Authorizes
  cases r.records.lookup p.keyID with
  | none => simp
  | some rec =>
    simp only [some.injEq, exists_eq_left', forall_eq']
    split_ifs with hsub hrev hexp
    · simp only [false_iff, not_and]
      rintro ⟨hid, hkind, hgen, hcur, -⟩
      rw [hkind, hid] at hsub
      exact absurd hsub (by simp [hgen, hcur])
    · simp [hrev]
    · simp only [false_iff, not_and]
      omega
    · simp only [not_or, not_not] at hsub hrev
      obtain ⟨hid, hkind, hgen, hcur⟩ := hsub
      rw [hkind, hid] at hcur
      exact ⟨fun _ => ⟨⟨hid, hkind, hgen, hcur, hrev⟩, by omega⟩, fun _ => rfl⟩

/-- What every call keeps of a registry: its records stay, remain their subject's, and stay
    revoked once they are. -/
def RegistryFile.Retains (r r' : RegistryFile) : Prop :=
  ∀ k rec, r.records.lookup k = some rec → ∃ rec', r'.records.lookup k = some rec' ∧
    rec'.kind = rec.kind ∧ rec'.subjectID = rec.subjectID ∧ rec'.generation = rec.generation ∧
    (rec.revokedAt ≠ 0 → rec'.revokedAt ≠ 0)

variable {rec : CredentialRecord} {kind : SubjectKind}

namespace RegistryFile

variable {r r' r'' : RegistryFile}

theorem Retains.refl (r : RegistryFile) : r.Retains r :=
  fun _ rec hl => ⟨rec, hl, rfl, rfl, rfl, id⟩

theorem Retains.trans (h : r.Retains r') (h' : r'.Retains r'') : r.Retains r'' := by
  intro k rec hl
  obtain ⟨rec', hl', hkind, hid, hgen, hrev⟩ := h k rec hl
  obtain ⟨rec'', hl'', hkind', hid', hgen', hrev'⟩ := h' k rec' hl'
  exact ⟨rec'', hl'', hkind'.trans hkind, hid'.trans hid, hgen'.trans hgen, hrev' ∘ hrev⟩

theorem retains_issue {id oldKeyID : String}
    {generation : Nat} {records : GoMap String CredentialRecord} (h : r.Ok)
    (hfresh : env.keyID ∉ r.records)
    (hretire : retirePredecessor r kind id oldKeyID env.now = some (generation, records)) :
    r.Retains (r.issue kind id generation records env) := by
  intro k rec hl
  refine ⟨_, issue_lookup_old h hretire hfresh hl, ?_⟩
  split
  · exact ⟨by simp, by simp, by simp, fun _ => rec.revoke_revokedAt_ne _⟩
  · exact ⟨rfl, rfl, rfl, fun hrev => hrev⟩

theorem retains_revokeRecord {id : String}
    (hl : r.records.lookup rec.keyID = some rec) (now : ClockReading) :
    r.Retains (r.revokeRecord kind id rec now) := by
  intro k rec' hl'
  rw [revokeRecord, lookup_insert_ite]
  split
  · next hk =>
    obtain rfl : rec = rec' := mem_unique hl (hk ▸ hl')
    exact ⟨_, rfl, by simp, by simp, by simp, fun _ => rec.revoke_revokedAt_ne now⟩
  · exact ⟨rec', hl', rfl, rfl, rfl, fun hrev => hrev⟩

end RegistryFile

theorem FileAuthority.step_retains {e : AuthorityEvent} (h : a.registry.Ok)
    (hstep : a.step fits e = some b) : a.registry.Retains b.registry := by
  cases e with
  | close =>
    cases hstep
    exact .refl _
  | call op env =>
    obtain ⟨-, hfresh, rfl⟩ := step_call hstep
    rcases call_effect fits h op env with
      ⟨-, hreg⟩ | ⟨-, -, hretire, hreg⟩ | ⟨-, -, -, hl, -, -, hreg⟩
    · exact hreg ▸ .refl _
    · exact hreg ▸ retains_issue h hfresh hretire
    · exact hreg ▸ retains_revokeRecord hl env.now

theorem FileAuthority.run_revoked {events : List AuthorityEvent} (h : a.registry.Ok)
    (hl : a.registry.records.lookup p.keyID = some rec) (hrev : rec.revokedAt ≠ 0)
    (hrun : exec (step fits) a events = some b) (now : Int) : b.registry.validIn now p ≠ none := by
  have hretains : a.registry.Retains b.registry :=
    exec_related (fun a : FileAuthority => a.registry.Ok)
      (fun a b : FileAuthority => a.registry.Retains b.registry) (fun a => .refl a.registry)
      (fun _ _ _ => .trans) (fun _ _ _ => step_ok) (fun _ _ _ => step_retains) h hrun
  obtain ⟨rec', hl', -, -, -, hstays⟩ := hretains p.keyID rec hl
  intro hvalid
  obtain ⟨⟨rec'', hl'', -, -, -, -, hzero⟩, -⟩ := validIn_eq_none_iff.mp hvalid
  obtain rfl : rec' = rec'' := mem_unique hl' hl''
  exact hstays hrev hzero

/-- The subject whose current key the operation takes away when it commits: rotation, renewal and
    the two revocations. -/
def RegistryOp.invalidates : RegistryOp → Option (SubjectKind × String)
  | .rotate kind id | .renewExpired kind id _ | .revoke kind id => some (kind, id)
  | .revokeCurrent p => some (p.kind, p.subjectID)
  | .ensure _ _ | .regrant _ _ _ => none

/-- A committed rotation, renewal or revocation revokes the key that was current. -/
theorem call_invalidates (h : a.registry.Ok)
    (hop : op.invalidates = some (p.kind, p.subjectID)) (hfresh : env.keyID ∉ a.registry.records)
    (hcom : (op.call fits a env).committed = true) (hp : a.registry.Authorizes p) :
    ∃ rec, (op.call fits a env).registry.records.lookup p.keyID = some rec ∧ rec.revokedAt ≠ 0 := by
  obtain ⟨old, hl, -, -, -, hcurrent, -⟩ := hp
  rcases call_effect fits h op env with
    ⟨hno, -⟩ | ⟨-, hi, hretire, hreg⟩ | ⟨-, hr, hcur, hlrec, -, -, hreg⟩
  · rw [hno] at hcom
    cases hcom
  · -- the predecessor of a rotation or a renewal is the current key
    have hold : ∀ {kind id oldKeyID}, a.registry.Issues kind id op oldKeyID →
        oldKeyID = p.keyID := by
      intro kind id oldKeyID hi
      cases hi with
      | first _ _ => cases hop
      | rotate rec hcur _ | renew rec hcur _ =>
        cases hop
        exact hcur.symm.trans hcurrent
      | regrant rec _ _ _ => cases hop
    rw [hreg]
    refine ⟨_, issue_lookup_old h hretire hfresh hl, ?_⟩
    rw [if_pos (hold hi).symm]
    exact old.revoke_revokedAt_ne _
  · rename_i kind id rec
    have hkey : p.keyID = rec.keyID := by
      cases hr with
      | any =>
        cases hop
        exact hcurrent.symm.trans hcur
      | exactly q hkind hid _ _ =>
        simp only [RegistryOp.invalidates, hkind, hid, some.injEq, Prod.mk.injEq] at hop
        rw [← hop.1, ← hop.2] at hcurrent
        exact hcurrent.symm.trans hcur
    rw [hreg, revokeRecord]
    refine ⟨_, by rw [lookup_insert_ite, if_pos hkey], ?_⟩
    exact rec.revoke_revokedAt_ne _

/-- A subject that was issued and has no current key gets a new record only from a `Regrant` that
    names the generation of its latest record. -/
theorem successor_only_by_regrant (h : a.registry.Ok) {id k : String} {g : Nat}
    (hissued : a.registry.subjectWasIssuedLocked kind id = true)
    (hcur : a.registry.currentID kind id = "") (hnew : k ∉ a.registry.records)
    (hfresh : env.keyID ∉ a.registry.records)
    (hgen : (op.call fits a env).registry.HasGeneration kind id g k) :
    ∃ rec, a.registry.Latest kind id rec ∧ op = .regrant kind id rec.generation ∧
      g = rec.generation + 1 := by
  have hnone : ¬ a.registry.HasGeneration kind id g k := by
    rintro ⟨rec, hl, -⟩
    exact hnew (mem_of_lookup hl)
  rcases call_effect fits h op env with
    ⟨-, hreg⟩ | ⟨-, hi, hretire, hreg⟩ | ⟨-, -, -, hl, -, -, hreg⟩
  · exact absurd (hreg ▸ hgen) hnone
  · rw [hreg, issue_hasGeneration h hretire hfresh] at hgen
    obtain ⟨-, rfl, rfl, rfl⟩ := hgen.resolve_right hnone
    obtain ⟨n, hn, hgn⟩ := retirePredecessor_generation h hretire (hi.predecessor h)
    cases hi with
    | first _ hnever => rw [hissued] at hnever; cases hnever
    | rotate rec hc hl | renew rec hc hl => exact absurd (hc.symm.trans hcur) (h.keyed _ _ hl).2
    | regrant rec _ hlatest _ =>
      exact ⟨rec, hlatest, rfl, by rw [hgn, hn.latest hlatest]⟩
  · rw [hreg, revokeRecord_hasGeneration hl] at hgen
    exact absurd hgen hnone

/-- `RevokeCurrent` for a principal that is not of the subject's latest generation does nothing. -/
theorem revokeCurrent_older (h : a.registry.Ok)
    (env : CallEnv) (hlatest : a.registry.Latest p.kind p.subjectID rec)
    (holder : p.generation < rec.generation) :
    ((RegistryOp.revokeCurrent p).call fits a env).registry = a.registry := by
  rcases call_effect fits h (.revokeCurrent p) env with
    ⟨-, hreg⟩ | ⟨-, hi, -⟩ | ⟨-, hr, hcur, hl, -, -, -⟩
  · exact hreg
  · cases hi
  -- the revoked record would be current, hence the latest one
  cases hr with
  | exactly _ hkind hid hkey hgen =>
    subst hkind hid
    have hle := (h.current_latest hcur hl).2.2.2 _ _ (latest_hasGeneration hlatest)
    omega

/-- **Revocation is sticky.** In every reachable state: a committed rotation, renewal or revocation
    of a principal's subject ends the principal for every continuation; a subject that was issued
    and has no current key gets a successor only from `Regrant` with its last generation; and
    `RevokeCurrent` for an older principal leaves the registry alone. -/
theorem revocation_sticky (events : List AuthorityEvent)
    (h : exec (FileAuthority.step fits) .init events = some a) :
    (∀ (op : RegistryOp) (env : CallEnv) (p : Principal) (b c : FileAuthority)
      (later : List AuthorityEvent) (now : Int), a.registry.Authorizes p →
      op.invalidates = some (p.kind, p.subjectID) → (op.call fits a env).committed = true →
      a.step fits (.call op env) = some b → exec (FileAuthority.step fits) b later = some c →
      c.registry.validIn now p ≠ none) ∧
    (∀ (op : RegistryOp) (env : CallEnv) (kind : SubjectKind) (id k : String) (g : Nat)
      (b : FileAuthority), a.registry.subjectWasIssuedLocked kind id = true →
      a.registry.currentID kind id = "" → a.step fits (.call op env) = some b →
      k ∉ a.registry.records → b.registry.HasGeneration kind id g k →
      ∃ rec, a.registry.Latest kind id rec ∧ op = .regrant kind id rec.generation ∧
        g = rec.generation + 1) ∧
    ∀ (p : Principal) (env : CallEnv) (rec : CredentialRecord),
      a.registry.Latest p.kind p.subjectID rec → p.generation < rec.generation →
      ((RegistryOp.revokeCurrent p).call fits a env).registry = a.registry := by
  have hok := run_ok h
  refine ⟨?_, ?_, ?_⟩
  · intro op env p b c later now hp hop hcom hstep hlater
    have hb := step_ok hok hstep
    obtain ⟨-, hfresh, rfl⟩ := step_call hstep
    obtain ⟨rec, hl, hrev⟩ := call_invalidates hok hop hfresh hcom hp
    exact run_revoked hb hl hrev hlater now
  · intro op env kind id k g b hissued hcur hstep hnew hgen
    obtain ⟨-, hfresh, rfl⟩ := step_call hstep
    exact successor_only_by_regrant hok hissued hcur hnew hfresh hgen
  · intro p env rec hlatest holder
    exact revokeCurrent_older hok env hlatest holder

theorem revocation_sticky_sample :
    ∃ a b, exec (FileAuthority.step fun _ => true) .init (sampleEvents.take 2) = some a ∧
      a.step (fun _ => true)
        (.call (.revoke .session "s1") (.clean ⟨3000, by decide⟩ "cc")) = some b ∧
      ∀ (later : List AuthorityEvent) (c : FileAuthority) (now : Int),
        exec (FileAuthority.step fun _ => true) b later = some c →
        c.registry.validIn now ⟨"bb", "s1", .session, 2⟩ ≠ none := by
  have hrun : exec (step fun _ => true) .init (sampleEvents.take 2) = some _ := rfl
  refine ⟨_, _, hrun, rfl, fun later c now hlater => ?_⟩
  exact (revocation_sticky (sampleEvents.take 2) hrun).1 (.revoke .session "s1")
    (.clean ⟨3000, by decide⟩ "cc") ⟨"bb", "s1", .session, 2⟩ _ c later now
    ⟨_, rfl, rfl, rfl, rfl, rfl, rfl⟩ rfl rfl rfl hlater

end AgentMultiplexer.Access
