import AgentMultiplexer.Direct.SpentKeys

set_option autoImplicit false

/-! # Runs of the direct authority

The invariant of every run is that each content of the store, in memory or on the disk, is a good
one. Over it, what is recorded everywhere stays recorded everywhere, and what the running process
has recorded it keeps; a `proceed` records its key everywhere, so that no second one follows. -/

namespace AgentMultiplexer.Direct

open GoMap Transition DirectState Option Set

/-- The key has a record or a tombstone in this content. -/
def StoreState.Records (spentKey : String → String) (st : StoreState) (clientID key : String) :
    Prop :=
  ∃ g, st.grants.lookup clientID = some g ∧ (key ∈ g.idem ∨ spentKey key ∈ g.spent)

instance (spentKey : String → String) (st : StoreState) (clientID key : String) :
    Decidable (st.Records spentKey clientID key) :=
  decidable_of_iff
    ((st.grants.lookup clientID).any (fun g => key ∈ g.idem ∨ spentKey key ∈ g.spent) = true) <| by
      simp only [StoreState.Records, Option.any_eq_true, decide_eq_true_eq]

/-- The grant was revoked and is gone. -/
def StoreState.Gone (h : History) (st : StoreState) (clientID : String) : Prop :=
  st.grants.lookup clientID = none ∧ clientID ∈ h.revoked

/-- The keys of the calls of `BeginAction`. -/
def keysOf (events : List DirectEvent) : Set String :=
  {key | ∃ call, DirectEvent.begin call ∈ events ∧ call.key = key}

theorem keysOf_mono {events events' : List DirectEvent} (h : events ⊆ events') :
    keysOf events ⊆ keysOf events' := fun _ ⟨call, hcall, hkey⟩ => ⟨call, h hcall, hkey⟩

theorem begin_mem {events : List DirectEvent} {keys : Set String} (h : keysOf events ⊆ keys) :
    ∀ e ∈ events, ∀ call, e = .begin call → call.key ∈ keys :=
  fun _ he call hcall => h ⟨call, hcall ▸ he, rfl⟩

variable {B : String → Prop}

section Records

variable {spentKey : String → String} {keys : Set String} {h : History} {st : StoreState}
  {clientID key : String}

theorem Recorded.of_mem {g : GrantRecord} (hmem : key ∈ g.idem ∨ spentKey key ∈ g.spent) :
    Recorded spentKey keys g key fun _ => True := by
  cases hr : g.idem.lookup key with
  | some r => exact .inl ⟨r, hr, trivial⟩
  | none =>
    rcases hmem with hmem | hmem
    · obtain ⟨r, hr'⟩ := mem_iff_lookup.mp hmem
      cases hr.symm.trans hr'
    · obtain ⟨body, hbody⟩ := mem_iff_lookup.mp hmem
      exact .inr ⟨hr, body, hbody, fun _ => trivial⟩

theorem Recorded.mem {g : GrantRecord}
    (hrec : Recorded spentKey keys g key B) : key ∈ g.idem ∨ spentKey key ∈ g.spent := by
  rcases hrec with ⟨r, hr, -⟩ | ⟨-, body, hbody, -⟩
  · exact .inl (mem_of_lookup hr)
  · exact .inr (mem_of_lookup hbody)

theorem Held.of_records (hrec : st.Records spentKey clientID key) :
    Held spentKey keys h st clientID key fun _ => True := by
  obtain ⟨g, hg, hmem⟩ := hrec
  exact .inl ⟨g, hg, .of_mem hmem⟩

theorem Held.records (hheld : Held spentKey keys h st clientID key B) :
    st.Records spentKey clientID key ∨ st.Gone h clientID := by
  rcases hheld with ⟨g, hg, hrec⟩ | hgone
  · exact .inl ⟨g, hg, hrec.mem⟩
  · exact .inr hgone

end Records

/-! ## Verdicts -/

section Verdicts

variable {spentKey : String → String} {keys : Set String} {p : Process} {disk : List StoreState}
  {call : BeginCall}

/-- **A recorded key never proceeds**, and another body hash is a conflict while the grant and the
    lease live. -/
theorem beginAction_of_held {h : History}
    (hheld : Held spentKey keys h p.registry call.clientID call.key B) (hkey : call.key ∈ keys)
    (hgood : Good keys h p.registry) (disk : List StoreState) :
    (beginAction spentKey p disk call).2.2 ≠ .ok .proceed ∧
      (Set.InjOn spentKey keys → ¬ B (spentBody call.bodyHash) → call.leaseEnded = false →
        ∀ g, p.registry.grants.lookup call.clientID = some g → g.revokedAt = 0 →
          (beginAction spentKey p disk call).2.2 = .ok .conflict) := by
  unfold beginAction
  split
  · next hlease => exact ⟨by simp, fun _ _ hopen => by cases hlease.symm.trans hopen⟩
  split
  · next hnone => exact ⟨by simp, fun _ _ _ g hg => by cases hnone.symm.trans hg⟩
  next g hg =>
  split
  · next hrevoked =>
    refine ⟨by simp, fun _ _ _ g' hg' hlive => absurd ?_ hrevoked⟩
    exact (mem_unique hg hg') ▸ hlive
  -- the compaction keeps the record, and the record gives the answer
  have hrec : Recorded spentKey keys g call.key B := by
    rcases hheld with ⟨g', hg', hrec⟩ | ⟨hnone, -⟩
    · exact (mem_unique hg hg') ▸ hrec
    · cases hg.symm.trans hnone
  have hcompact : GrantKeeps spentKey keys (fun _ => True) g
      (compactExpired spentKey call.now call.order g) := compactExpired_keeps _ _ g
  obtain ⟨outcome, hsome, hne, hconflict⟩ :=
    (hcompact.recorded call.key B trivial hkey (hgood.keys _ g hg) hrec).outcome
      p.running call.clientID call.bodyHash call.now
  have hrunning : ∀ g', (p.setGrant call.clientID g').running = p.running := fun _ => rfl
  simp only [hrunning, hsome, ne_eq, Except.ok.injEq]
  exact ⟨hne, fun hinj hB _ _ _ _ => hconflict hinj hB⟩

theorem recordedOutcome_ne_proceed (running : List String) (clientID : String) (g : GrantRecord)
    (key bodyHash : String) (now : Int) :
    recordedOutcome spentKey running clientID g key bodyHash now ≠ some .proceed := by
  fun_cases recordedOutcome with
  | _ => simp

/-- **A `proceed` is durable**: the key is recorded in memory, and the disk has nothing else. -/
theorem beginAction_proceed (hpeek : call.peek = false)
    (h : (beginAction spentKey p disk call).2.2 = .ok .proceed) :
    (beginAction spentKey p disk call).2.1 = [(beginAction spentKey p disk call).1.registry] ∧
      ∃ g, (beginAction spentKey p disk call).1.registry.grants.lookup call.clientID = some g ∧
        g.idem.lookup call.key = some (admission p.boot call) := by
  revert h
  fun_cases beginAction spentKey p disk call with
  | case4 _ _ _ _ _ _ outcome houtcome =>
    rintro ⟨⟩
    exact (recordedOutcome_ne_proceed _ _ _ _ _ _ houtcome).elim
  | case5 _ _ _ _ _ _ _ hpeek' => cases hpeek.symm.trans hpeek'
  | case8 =>
    fun_cases admits with
    | case1 => exact fun _ => ⟨rfl, _, AList.lookup_insert _, AList.lookup_insert _⟩
    | _ => rintro ⟨⟩
  | _ => rintro ⟨⟩

end Verdicts

/-! ## Runs -/

namespace DirectState

variable {spentKey : String → String} {keys : Set String} {s t : DirectState} {e : DirectEvent}
  {es : List DirectEvent} {clientID key : String} {B : String → Prop}

def Sound (keys : Set String) (s : DirectState) : Prop :=
  ∀ st ∈ s.contents, Good keys s.history st

theorem sound_blank : Sound keys blank := by
  intro st hst
  obtain rfl : st = ⟨∅⟩ := by simpa [contents, blank] using hst
  have hempty : ∀ c, (∅ : GoMap String GrantRecord).lookup c = none := AList.lookup_empty
  refine ⟨fun c hc => absurd hc (AList.notMem_empty c), fun c g hg => ?_, fun c g hg => ?_⟩
  · cases (hempty c).symm.trans hg
  · cases (hempty c).symm.trans hg

theorem Sound.step (hsound : Sound keys s) (hstep : step spentKey s e = some t)
    (hkey : ∀ call, e = .begin call → call.key ∈ keys) : Sound keys t := by
  intro st' hst'
  obtain ⟨st, hst, hkeeps⟩ := (step_keeps hstep hkey).source st' hst'
  exact hkeeps.good (hsound st hst)

/-- The key is held in every content. -/
structure Secured (spentKey : String → String) (keys : Set String) (clientID key : String)
    (B : String → Prop) (s : DirectState) : Prop where
  sound : Sound keys s
  created : ∀ st ∈ s.contents, clientID ∈ s.history.created
  held : ∀ st ∈ s.contents, Held spentKey keys s.history st clientID key B

/-- The key is held in the memory of the running process. -/
structure Remembered (spentKey : String → String) (keys : Set String) (clientID key : String)
    (B : String → Prop) (s : DirectState) : Prop where
  sound : Sound keys s
  created : clientID ∈ s.history.created
  held : ∃ p, s.process = some p ∧ Held spentKey keys s.history p.registry clientID key B

theorem Secured.step (hsec : Secured spentKey keys clientID key B s)
    (hstep : step spentKey s e = some t) (hkey : ∀ call, e = .begin call → call.key ∈ keys)
    (hmem : key ∈ keys) (habort : ¬ Aborts s e clientID key) :
    Secured spentKey keys clientID key B t := by
  have hkeep := step_keeps hstep hkey
  refine ⟨hsec.sound.step hstep hkey, fun st' hst' => ?_, fun st' hst' => ?_⟩
  · obtain ⟨st, hst, -⟩ := hkeep.source st' hst'
    exact hkeep.grows.created (hsec.created st hst)
  · obtain ⟨st, hst, hkeeps⟩ := hkeep.source st' hst'
    exact hkeeps.held _ _ B habort (hsec.created st hst) hmem (hsec.sound st hst) (hsec.held st hst)

theorem running_of_ne_crash {p : Process} (hp : s.process = some p) (he : e ≠ .crash)
    (hstep : step spentKey s e = some t) : ∃ q, t.process = some q := by
  have hredeem : ∀ clientID now commit,
      ∃ q, ((s.create clientID).redeem p clientID now commit).process = some q := by
    intro clientID now commit
    cases commit <;> exact ⟨_, rfl⟩
  cases e <;> simp only [step, hp, reduceCtorEq] at hstep
  case crash => exact absurd rfl he
  case redeem clientID now commit =>
    split_ifs at hstep
    exact some.inj hstep ▸ hredeem clientID now commit
  case revoke =>
    split at hstep
    · exact ⟨p, some.inj hstep ▸ hp⟩
    · exact some.inj hstep ▸ ⟨_, rfl⟩
  all_goals exact some.inj hstep ▸ ⟨_, rfl⟩

theorem Remembered.step (hrem : Remembered spentKey keys clientID key B s)
    (hstep : step spentKey s e = some t) (hkey : ∀ call, e = .begin call → call.key ∈ keys)
    (hmem : key ∈ keys) (habort : ¬ Aborts s e clientID key) (hcrash : e ≠ .crash) :
    Remembered spentKey keys clientID key B t := by
  have hkeep := step_keeps hstep hkey
  obtain ⟨p, hp, hheld⟩ := hrem.held
  obtain ⟨q, hq⟩ := running_of_ne_crash hp hcrash hstep
  have hgood := hrem.sound p.registry (mem_contents.mpr (.inl ⟨p, hp, rfl⟩))
  exact ⟨hrem.sound.step hstep hkey, hkeep.grows.created hrem.created, q, hq,
    (hkeep.memory p q hp hq).held _ _ B habort hrem.created hmem hgood hheld⟩

theorem Sound.exec (hsound : Sound keys s) (h : exec (DirectState.step spentKey) s es = some t)
    (hkeys : keysOf es ⊆ keys) : Sound keys t :=
  exec_invariant_along (fun _ e => ∀ call, e = .begin call → call.key ∈ keys) (Sound keys)
    (fun _ _ _ hs hkey hstep => hs.step hstep hkey) hsound
    (.of_forall (begin_mem hkeys)) h

section

variable (hmem : key ∈ keys) (h : exec (DirectState.step spentKey) s es = some t)
  (hkeys : keysOf es ⊆ keys)
  (habort : Along (DirectState.step spentKey) (fun s e => ¬ Aborts s e clientID key) s es)

include hmem h hkeys habort

theorem Secured.exec (hsec : Secured spentKey keys clientID key B s) :
    Secured spentKey keys clientID key B t :=
  exec_invariant_along _ (Secured spentKey keys clientID key B)
    (fun _ _ _ hs hP hstep => hs.step hstep hP.1 hmem hP.2) hsec
    (.and (.of_forall (begin_mem hkeys)) habort) h

theorem Remembered.exec (hrem : Remembered spentKey keys clientID key B s)
    (hcrash : ∀ e ∈ es, e ≠ .crash) : Remembered spentKey keys clientID key B t :=
  exec_invariant_along _ (Remembered spentKey keys clientID key B)
    (fun _ _ _ hs hP hstep => hs.step hstep hP.1 hmem hP.2.1 hP.2.2) hrem
    (.and (.of_forall (begin_mem hkeys)) (.and habort (.of_forall hcrash))) h

end

theorem Sound.created {st : StoreState} (hsound : Sound keys s) (hst : st ∈ s.contents)
    (hrec : st.Records spentKey clientID key) : clientID ∈ s.history.created := by
  obtain ⟨g, hg, -⟩ := hrec
  exact (hsound st hst).known clientID (mem_of_lookup hg)

theorem Secured.of_proceed {call : BeginCall} (hsound : Sound keys s) (hkey : call.key ∈ keys)
    (hverdict : s.verdict spentKey call = some (.ok .proceed)) (hpeek : call.peek = false)
    (hstep : DirectState.step spentKey s (.begin call) = some t) :
    Secured spentKey keys call.clientID call.key (· = spentBody call.bodyHash) t := by
  obtain ⟨p, hp, hproceed⟩ := map_eq_some_iff.mp hverdict
  obtain ⟨hdisk, g, hg, hr⟩ := beginAction_proceed hpeek hproceed
  have hbody : (admission p.boot call).bodyHash = call.bodyHash := by
    unfold admission
    split <;> rfl
  have hsound' := hsound.step hstep fun call' hcall => by cases hcall; exact hkey
  simp only [DirectState.step, hp] at hstep
  cases hstep
  refine ⟨hsound', fun st hst => ?_, fun st hst => ?_⟩
  · exact (hsound' st hst).known _ (mem_of_lookup (mem_contents_moved hdisk hst ▸ hg))
  · rw [mem_contents_moved hdisk hst]
    exact .inl ⟨g, hg, .inl ⟨_, hr, congrArg spentBody hbody⟩⟩

/-- **A key runs once.** Over every run, cut in two at any point and with no abort of the key in the
    second part: a key recorded in memory and in every content of the disk stays recorded in all of
    them, and one recorded in memory stays so as long as the process lives, unless its grant was
    revoked and is gone. If the second part begins with a `proceed` for the key, then the key is
    recorded everywhere from there on, no call for it proceeds again, and a call with another body
    is a conflict, as long as the hash prefixes do not collide. -/
theorem key_runs_once {before after : List DirectEvent} {clientID key : String}
    (hbefore : exec (DirectState.step spentKey) blank before = some s)
    (hafter : exec (DirectState.step spentKey) s after = some t)
    (habort : Along (DirectState.step spentKey) (fun s e => ¬ Aborts s e clientID key) s after) :
    ((∀ st ∈ s.contents, st.Records spentKey clientID key) →
      ∀ st ∈ t.contents, st.Records spentKey clientID key ∨ st.Gone t.history clientID) ∧
    (∀ p, s.process = some p → p.registry.Records spentKey clientID key →
      (∀ e ∈ after, e ≠ .crash) → ∃ q, t.process = some q ∧
        (q.registry.Records spentKey clientID key ∨ q.registry.Gone t.history clientID)) ∧
    ∀ call rest, after = .begin call :: rest → call.clientID = clientID → call.key = key →
      s.verdict spentKey call = some (.ok .proceed) → call.peek = false →
      (∀ st ∈ t.contents, st.Records spentKey clientID key ∨ st.Gone t.history clientID) ∧
      ∀ later : BeginCall, later.clientID = clientID → later.key = key →
        t.verdict spentKey later ≠ some (.ok .proceed) ∧
        (Set.InjOn spentKey (keysOf (before ++ after)) →
          spentBody later.bodyHash ≠ spentBody call.bodyHash → later.leaseEnded = false →
          ∀ p g, t.process = some p → p.registry.grants.lookup clientID = some g →
            g.revokedAt = 0 → t.verdict spentKey later = some (.ok .conflict)) := by
  have hsound : Sound univ s := sound_blank.exec hbefore (subset_univ _)
  refine ⟨fun hrec st hst => ?_, fun p hp hrec hcrash => ?_, ?_⟩
  · have hsec : Secured spentKey univ clientID key (fun _ => True) s :=
      ⟨hsound, fun st hst => hsound.created hst (hrec st hst), fun st hst => .of_records
        (hrec st hst)⟩
    exact ((hsec.exec (mem_univ _) hafter (subset_univ _) habort).held st hst).records
  · have hcontent : p.registry ∈ s.contents := mem_contents.mpr (.inl ⟨p, hp, rfl⟩)
    have hrem : Remembered spentKey univ clientID key (fun _ => True) s :=
      ⟨hsound, hsound.created hcontent hrec, p, hp, .of_records hrec⟩
    obtain ⟨q, hq, hheld⟩ :=
      (hrem.exec (mem_univ _) hafter (subset_univ _) habort hcrash).held
    exact ⟨q, hq, hheld.records⟩
  · rintro call rest rfl rfl rfl hverdict hpeek
    have hmem : call.key ∈ keysOf (before ++ .begin call :: rest) :=
      ⟨call, List.mem_append_right _ List.mem_cons_self, rfl⟩
    obtain ⟨m, hm, hrest⟩ := exec_cons_eq_some.mp hafter
    have hsec : Secured spentKey (keysOf (before ++ .begin call :: rest)) call.clientID call.key
        (· = spentBody call.bodyHash) t := by
      refine (Secured.of_proceed (sound_blank.exec hbefore ?_) hmem hverdict hpeek hm).exec hmem
        hrest ?_ (habort.2 m hm)
      · exact keysOf_mono (List.subset_append_left _ _)
      · exact keysOf_mono (List.Subset.trans (List.subset_cons_self _ _)
          (List.subset_append_right _ _))
    refine ⟨fun st hst => (hsec.held st hst).records, fun later hclient hkey => ?_⟩
    cases hp : t.process with
    | none => exact ⟨by simp [verdict, hp], fun _ _ _ p g hp' => nomatch hp'⟩
    | some p =>
      have hcontent : p.registry ∈ t.contents := mem_contents.mpr (.inl ⟨p, hp, rfl⟩)
      have hheld := hsec.held _ hcontent
      rw [← hclient, ← hkey] at hheld
      obtain ⟨hno, hconflict⟩ :=
        beginAction_of_held hheld (hkey ▸ hmem) (hsec.sound _ hcontent) t.disk
      simp only [verdict, hp, map_some, ne_eq, some.injEq]
      refine ⟨hno, fun hinj hbody hlease q g hq hg hlive => ?_⟩
      subst hq
      exact hconflict hinj hbody hlease g (hclient ▸ hg) hlive

/-- A call of `BeginAction` on the grant `c`, with a commit that is durable. -/
def sampleCall (key bodyHash : String) (now : Int) (order : List String) : BeginCall :=
  ⟨"c", key, bodyHash, false, none, false, now, order, .ok⟩

/-- An authority starts and a client enrolls. -/
def sampleEnrolment : List DirectEvent :=
  [.load 0 "b1" 0 .ok false .ok, .redeem "c" 0 .ok]

/-- The key runs; the authority restarts; a day later a call for another key compacts the record. -/
def sampleAfter : List DirectEvent :=
  [.begin (sampleCall "k" "h1" 10 []), .finish "c" "k" (.finish true "" "") 11 .ok, .crash,
    .load 0 "b2" 20 .ok false .ok, .begin (sampleCall "other" "h3" 100000 ["k"])]

def noAbort (_ : DirectState) : DirectEvent → Bool
  | .abort .. => false
  | _ => true

theorem not_aborts_of_noAbort (s : DirectState) (e : DirectEvent) (h : noAbort s e = true) :
    ¬ Aborts s e clientID key := by
  rintro ⟨commit, rfl, -⟩
  cases h

/-- The body of a spent key is still told from another one. -/
theorem key_runs_once_spent :
    ∃ s t, exec (DirectState.step id) blank sampleEnrolment = some s ∧
      exec (DirectState.step id) s sampleAfter = some t ∧
      s.verdict id (sampleCall "k" "h1" 10 []) = some (.ok .proceed) ∧
      (∀ st ∈ t.contents, st.Records id "c" "k" ∨ st.Gone t.history "c") ∧
      t.verdict id (sampleCall "k" "h2" 100001 []) = some (.ok .conflict) := by
  simp only [exists_and_left]
  refine reaches_imp (P := fun s => s.verdict id (sampleCall "k" "h1" 10 []) = some (.ok .proceed) ∧
    check (step id) noAbort s sampleAfter = true ∧
    ∃ t, exec (step id) s sampleAfter = some t ∧ ∃ p, t.process = some p ∧
      ∃ g, p.registry.grants.lookup "c" = some g ∧ g.revokedAt = 0) (by decide +kernel) ?_
  rintro s hbefore ⟨hverdict, hcheck, t, hafter, p, hp, g, hg, hlive⟩
  have habort : Along (step id) (fun s e => ¬ Aborts s e "c" "k") s sampleAfter :=
    .of_check not_aborts_of_noAbort hcheck
  obtain ⟨hrecords, hlater⟩ :=
    (key_runs_once hbefore hafter habort).2.2 _ _ rfl rfl rfl hverdict rfl
  exact ⟨t, hafter, hverdict, hrecords, (hlater (sampleCall "k" "h2" 100001 []) rfl rfl).2
    (injOn_id _) (by decide) rfl p g hp hg hlive⟩

/-- The key `k` is in memory after `before`, and gone from there after `after`, while its grant
    lives; then a call with another body proceeds. -/
def Forgotten (before after : List DirectEvent) : Prop :=
  ∃ s t p q g, exec (DirectState.step id) blank before = some s ∧
    exec (DirectState.step id) s after = some t ∧
    s.process = some p ∧ p.registry.Records id "c" "k" ∧
    t.process = some q ∧ ¬ q.registry.Records id "c" "k" ∧
    q.registry.grants.lookup "c" = some g ∧ g.revokedAt = 0 ∧
    t.verdict id (sampleCall "k" "h2" 12 []) = some (.ok .proceed)

/-- **Keys that are forgotten**: an abort removes the record of a key that had proceeded, and a
    record whose admission was ambiguous may be lost in a crash. -/
theorem recorded_key_forgotten :
    Forgotten (sampleEnrolment ++ [.begin (sampleCall "k" "h1" 10 [])]) [.abort "c" "k" .ok] ∧
    Forgotten (sampleEnrolment ++
        [.begin ⟨"c", "k", "h1", false, none, false, 10, [], .ambiguous⟩])
      [.crash, .load 1 "b2" 11 .ok false .ok] := by
  simp only [Forgotten, exists_and_left]
  constructor <;> decide +kernel

end DirectState

end AgentMultiplexer.Direct
