import AgentMultiplexer.Access.AtMostOnce
import AgentMultiplexer.Access.JournalUnion

set_option autoImplicit false

/-! # Where an accepted request is kept

The invariant of the ledger and its disk says where the record of an accepted, unexpired request is:
settled in the journal files, or in every content `replay.json` can have and contradicted by no file.
While the authority runs, the ledger in memory agrees with it, which is why a snapshot taken from
memory may replace the files. Every step keeps the invariant, under the conditions on appends,
decisions and the clock that `AppendsClean` states. -/

namespace AgentMultiplexer.Access

open AList GoMap List Int Nat

/-! ## The invariant -/

namespace DurableState

/-- An accepted request that has not expired. -/
def Needed (s : DurableState) (r : ReplayRecord) : Prop :=
  r ∈ s.acked ∧ replayCutoff s.ledger.clock ≤ r.expiresAt

/-- Recovery finds `r`, whatever a crash does. -/
def OnDisk (s : DurableState) (r : ReplayRecord) : Prop :=
  Settled (fun _ => True) r s.files ∨
    ((∀ content ∈ s.snapshot :: s.earlier, content.lookup (replayKey r) = some r) ∧
      ∀ f ∈ s.files, OnlyAs r f.records)

/-- What holds of the disk in every mode. -/
structure Disk (s : DurableState) : Prop where
  shape : ∀ f ∈ s.files, f.Shape
  order : s.files.Pairwise JournalFile.Before
  newest : ∀ f ∈ s.files, f.gen ≤ s.gen
  onDisk : ∀ r, s.Needed r → s.OnDisk r

/-- What holds while the authority runs. -/
structure Running (s : DurableState) : Prop where
  issued : s.ledger.registry.issued
  shards : s.installed → ∀ shard < replayShards, ∃ f ∈ s.files, f.gen = s.gen ∧ f.shard = shard
  held : ∀ r, s.Needed r → s.ledger.entries.lookup (replayKey r) = some r
  checked : ∀ i req now, s.ledger.calls i = .checked req now →
    validHexID req.requestID 16 ∧ req.inRange ∧ now ≤ s.ledger.clock
  inserted : ∀ i r, s.ledger.calls i = .inserted r → r.WellFormed ∧
    (s.ledger.entries.lookup (replayKey r) = some r ∨
      replayKey r ∉ s.ledger.entries ∧ r.expiresAt < replayCutoff s.ledger.clock)

/-- What holds of a compaction or a recovery on its way. -/
structure Pending (s : DurableState) : Prop where
  quiet : s.mode ≠ .running → s.compaction = .idle
  rotated : ∀ snapshot old, s.compaction = .rotated snapshot old → old < s.gen ∧
    ∀ r, s.Needed r → snapshot.lookup (replayKey r) = some r ∨ Settled (old < ·.gen) r s.files
  committed : ∀ old, s.compaction = .committed old → old < s.gen ∧ s.earlier = [] ∧
    ∀ r, s.Needed r → s.snapshot.lookup (replayKey r) = some r ∨ Settled (old < ·.gen) r s.files
  merged : ∀ entries, s.mode = .merged entries →
    ∀ r, s.Needed r → entries.lookup (replayKey r) = some r
  folded : ∀ entries, s.mode = .folded entries →
    (∀ r, s.Needed r → entries.lookup (replayKey r) = some r) ∧
      (s.files = [] ∨ s.snapshot = entries ∧ s.earlier = [])

variable {s : DurableState}

theorem Pending.of_idle (hidle : s.compaction = .idle)
    (hmerged : ∀ entries, s.mode = .merged entries →
      ∀ r, s.Needed r → entries.lookup (replayKey r) = some r)
    (hfolded : ∀ entries, s.mode = .folded entries →
      (∀ r, s.Needed r → entries.lookup (replayKey r) = some r) ∧
        (s.files = [] ∨ s.snapshot = entries ∧ s.earlier = [])) : s.Pending :=
  ⟨fun _ => hidle, (fun _ _ hc => nomatch hidle.symm.trans hc),
    (fun _ hc => nomatch hidle.symm.trans hc), hmerged, hfolded⟩

theorem Pending.of_running (hmode : s.mode = .running)
    (hrotated : ∀ snapshot old, s.compaction = .rotated snapshot old → old < s.gen ∧
      ∀ r, s.Needed r → snapshot.lookup (replayKey r) = some r ∨ Settled (old < ·.gen) r s.files)
    (hcommitted : ∀ old, s.compaction = .committed old → old < s.gen ∧ s.earlier = [] ∧
      ∀ r, s.Needed r → s.snapshot.lookup (replayKey r) = some r ∨
        Settled (old < ·.gen) r s.files) : s.Pending :=
  ⟨fun hm => absurd hmode hm, hrotated, hcommitted, (fun _ hm => nomatch hmode.symm.trans hm),
    fun _ hm => nomatch hmode.symm.trans hm⟩

structure Inv (s : DurableState) : Prop where
  disk : s.Disk
  pending : s.Pending
  running : s.mode = .running → s.Running

/-- **Recovery from a disk of this kind** succeeds and finds what is needed. -/
theorem Disk.recovered (h : s.Disk) : ∃ entries, s.recovered = .ok entries ∧
      ∀ r, s.Needed r → entries.lookup (replayKey r) = some r := by
  obtain ⟨entries, hentries, hlookup⟩ := recoverEntries_ok h.shape s.snapshot
  refine ⟨entries, hentries, fun r hr => hlookup r ?_⟩
  exact (h.onDisk r hr).imp_right fun hsnap => ⟨hsnap.1 _ mem_cons_self, hsnap.2⟩

end DurableState

/-! ## The conditions -/

/-- The conditions on a step.
    An append goes to a file that ends with a whole record; one that fails finds everything before
    it durable; and the file stays within the size `readJournal` accepts.
    A decision does not insert a key for which another call's append is still outstanding.
    The clock does not go back: a compaction forgets what has expired at its reading. -/
def AppendsClean (crypto : Crypto) (s : DurableState) : DurableEvent → Prop
  | .append i outcome => ∀ r, s.ledger.calls i = .inserted r →
      ∀ f ∈ s.files, f.gen = s.gen → f.shard = shardFor r.keyID →
        f.Whole ∧ (∀ n, outcome = .failed n → f.synced = f.data.length) ∧
          f.data.length + (recordBytes r).length ≤ maxJournalBytes
  | .decide i => ∀ req now, s.ledger.calls i = .checked req now →
      replayKey (replayRecordOf crypto req) ∈ s.ledger.entries ∨
        ∀ j r, s.ledger.calls j = .inserted r →
          replayKey r ≠ replayKey (replayRecordOf crypto req)
  | .tick now => s.ledger.clock ≤ now
  | _ => True

namespace DurableState

variable {crypto : Crypto} {s t : DurableState}

/-! ## Sections that leave the disk alone -/

theorem replayCutoff_mono {a b : Int} (h : a ≤ b) : replayCutoff a ≤ replayCutoff b :=
  Int.ediv_le_ediv (by decide) (by omega)

/-- Only the ledger in memory changes, and the clock does not go back. -/
theorem Inv.ledger (h : s.Inv) {ledger : LedgerState} (hclock : s.ledger.clock ≤ ledger.clock)
    (hrunning : s.Running → s.mode = .running → { s with ledger := ledger }.Running) :
    { s with ledger := ledger }.Inv := by
  have hneeded : ∀ r, { s with ledger := ledger }.Needed r → s.Needed r := fun r hr =>
    ⟨hr.1, le_trans (replayCutoff_mono hclock) hr.2⟩
  exact {
    disk := ⟨h.disk.shape, h.disk.order, h.disk.newest, fun r hr => h.disk.onDisk r (hneeded r hr)⟩
    pending := {
      quiet := h.pending.quiet
      rotated := fun snapshot old hc => (h.pending.rotated snapshot old hc).imp_right
        fun hall r hr => hall r (hneeded r hr)
      committed := fun old hc => (h.pending.committed old hc).imp_right
        (.imp_right fun hall r hr => hall r (hneeded r hr))
      merged := fun entries hm r hr => h.pending.merged entries hm r (hneeded r hr)
      folded := fun entries hm => (h.pending.folded entries hm).imp_left
        fun hall r hr => hall r (hneeded r hr) }
    running := fun hm => hrunning (h.running hm) hm }

variable {now : Int}

theorem Inv.tick (h : s.Inv) (hnow : s.ledger.clock ≤ now) :
    { s with ledger := { s.ledger with clock := now } }.Inv := by
  refine h.ledger hnow fun hr _ => ?_
  have hcut := replayCutoff_mono hnow
  exact { hr with
    held := fun r hneeded => hr.held r ⟨hneeded.1, le_trans hcut hneeded.2⟩
    checked := fun i req t hc => by
      obtain ⟨hid, hrange, hle⟩ := hr.checked i req t hc
      exact ⟨hid, hrange, le_trans hle hnow⟩
    inserted := fun i r hc => by
      obtain ⟨hwf, hentry⟩ := hr.inserted i r hc
      exact ⟨hwf, hentry.imp_right (.imp_right fun hexp => lt_of_lt_of_le hexp hcut)⟩ }

theorem setCall_calls {ledger : LedgerState} {i j : Nat} {c c' : CallState}
    (h : (ledger.setCall i c).calls j = c') : c = c' ∨ ledger.calls j = c' := by
  by_cases hji : j = i
  · exact .inl (by simpa [LedgerState.setCall, hji] using h)
  · exact .inr (by simpa [LedgerState.setCall, hji] using h)

theorem Running.setCall (h : s.Running) (i : Nat) {c : CallState}
    (hchecked : ∀ req now, c = .checked req now →
      validHexID req.requestID 16 ∧ req.inRange ∧ now ≤ s.ledger.clock)
    (hinserted : ∀ r, c ≠ .inserted r) : { s with ledger := s.ledger.setCall i c }.Running :=
  { h with
    checked := fun j req now hj =>
      (setCall_calls hj).elim (hchecked req now) (h.checked j req now)
    inserted := fun j r hj => h.inserted j r ((setCall_calls hj).resolve_left (hinserted r)) }

variable {req : SignedRequest}

theorem checkEnvelope_requestID {bootID : String}
    (h : checkEnvelope bootID now req = none) : validHexID req.requestID 16 := by
  unfold checkEnvelope at h
  split_ifs at h with hno
  simp only [not_or] at hno
  simpa using hno.2.2.1

variable {rec : CredentialRecord}

theorem checkCredential_ok {closed : Bool} {registry : RegistryFile}
    (h : checkCredential crypto closed registry now req = .ok rec) :
    registry.records.lookup req.keyID = some rec ∧ rec.generation = req.generation := by
  unfold checkCredential at h
  split_ifs at h
  split at h
  next => cases h
  next found hfound =>
  split at h
  next => cases h
  next hno =>
  simp only [not_or, not_not] at hno
  split at h
  next => cases h
  split at h
  next => cases h
  split_ifs at h
  cases h
  exact ⟨hfound, hno.1⟩

variable {i : Nat}

theorem Running.wellFormed (h : s.Running) (hdigest : ∀ body, validHexID (crypto.bodyDigest body) 32)
    (hcall : s.ledger.calls i = .checked req now)
    (hcred : checkCredential crypto s.ledger.closed s.ledger.registry now req = .ok rec) :
    (replayRecordOf crypto req).WellFormed := by
  obtain ⟨hid, hrange, -⟩ := h.checked i req now hcall
  obtain ⟨hlookup, hgen⟩ := checkCredential_ok hcred
  obtain ⟨hkey, hbound⟩ : validHexID req.keyID 16 ∧ rec.generation < 2 ^ 64 := by
    simpa using all_eq_true.mp h.issued ⟨_, rec⟩ (mem_lookup_iff.mp hlookup)
  rw [hgen] at hbound
  simp only [SignedRequest.inRange, Bool.and_eq_true, decide_eq_true_eq] at hrange
  exact {
    keyID := hkey
    requestID := hid
    bodyDigest := hdigest req.body
    generation := hbound
    expiresLow := hrange.1
    expiresHigh := hrange.2 }

variable {r : ReplayRecord} {entries : ReplayEntries} {base : ReplayEntries}

/-- What a prune does to one key: nothing, or it drops an expired entry. -/
theorem lookup_pruned {now clock : Int}
    (hbase : base = entries ∨ base = unexpired entries now) (hnow : now ≤ clock) {k : String}
    (hr : entries.lookup k = some r) :
    base.lookup k = some r ∨ k ∉ base ∧ r.expiresAt < replayCutoff clock := by
  rcases hbase with rfl | rfl
  · exact .inl hr
  by_cases hlive : replayCutoff now ≤ r.expiresAt
  · exact .inl (lookup_filter_eq_some.mpr ⟨hr, decide_eq_true hlive⟩)
  refine .inr ⟨fun hmem => ?_, ?_⟩
  · obtain ⟨v, hv, hkeep⟩ := GoMap.mem_filter.mp hmem
    rw [hr, Option.some.injEq] at hv
    exact hlive (hv ▸ of_decide_eq_true hkeep)
  · exact lt_of_lt_of_le (not_le.mp hlive) (replayCutoff_mono hnow)

theorem notMem_pruned
    (hbase : base = entries ∨ base = unexpired entries now) {k : String} (hk : k ∉ entries) :
    k ∉ base := by
  rcases hbase with rfl | rfl
  · exact hk
  intro hmem
  obtain ⟨v, hv, -⟩ := GoMap.mem_filter.mp hmem
  exact hk (mem_of_lookup hv)

/-- A prune with a clock reading of the past keeps what is needed. -/
theorem Running.prune (h : s.Running) (dropped : List String)
    (hbase : base = s.ledger.entries ∨ base = unexpired s.ledger.entries now)
    (hnow : now ≤ s.ledger.clock) :
    { s with ledger := { s.ledger with entries := base, pruned := dropped } }.Running where
  issued := h.issued
  shards := h.shards
  held r hr := by
    rcases lookup_pruned hbase hnow (h.held r hr) with hin | ⟨-, hexp⟩
    · exact hin
    · exact absurd hr.2 (not_le.mpr hexp)
  checked := h.checked
  inserted i r hc := by
    obtain ⟨hwf, hin | ⟨hout, hexp⟩⟩ := h.inserted i r hc
    · exact ⟨hwf, lookup_pruned hbase hnow hin⟩
    · exact ⟨hwf, .inr ⟨notMem_pruned hbase hout, hexp⟩⟩

theorem Running.insert (h : s.Running) (i : Nat) (hwf : r.WellFormed)
    (hkey : replayKey r ∉ s.ledger.entries)
    (hfree : ∀ j x, s.ledger.calls j = .inserted x → replayKey x ≠ replayKey r) :
    { s with ledger := { s.ledger.setCall i (.inserted r) with
      entries := s.ledger.entries.insert (replayKey r) r } }.Running where
  issued := h.issued
  shards := h.shards
  held x hx := by
    have hin := h.held x hx
    have hne : replayKey x ≠ replayKey r := fun heq => hkey (heq ▸ mem_of_lookup hin)
    exact (lookup_insert_ne hne).trans hin
  checked j req now hj := h.checked j req now ((setCall_calls hj).resolve_left nofun)
  inserted j x hj := by
    rcases setCall_calls hj with heq | hcall
    · cases heq
      exact ⟨hwf, .inl (lookup_insert _)⟩
    have hne := hfree j x hcall
    obtain ⟨hwf', hin | ⟨hout, hexp⟩⟩ := h.inserted j x hcall
    · exact ⟨hwf', .inl ((lookup_insert_ne hne).trans hin)⟩
    refine ⟨hwf', .inr ⟨fun hmem => ?_, hexp⟩⟩
    rcases (mem_insert _).mp hmem with heq | hmem
    · exact hne heq
    · exact hout hmem

theorem Running.decided (h : s.Running) (hdigest : ∀ body, validHexID (crypto.bodyDigest body) 32)
    (hcall : s.ledger.calls i = .checked req now)
    (hcond : replayKey (replayRecordOf crypto req) ∈ s.ledger.entries ∨
      ∀ j r, s.ledger.calls j = .inserted r → replayKey r ≠ replayKey (replayRecordOf crypto req)) :
    { s with ledger := s.ledger.decided crypto i req now }.Running := by
  have hnow : now ≤ s.ledger.clock := (h.checked i req now hcall).2.2
  unfold LedgerState.decided
  cases hcred : checkCredential crypto s.ledger.closed s.ledger.registry now req with
  | error err => exact h.setCall i (by simp) (by simp)
  | ok rec =>
    dsimp only
    rcases acceptReplay_cases s.ledger.entries s.ledger.records now (replayRecordOf crypto req) with
      ⟨-, heq⟩ | ⟨habsent, base, hbase, heq | heq⟩
    · rw [heq]
      exact (h.prune (s.ledger.pruned ++ droppedKeys s.ledger.entries s.ledger.entries) (.inl rfl)
        hnow).setCall i (c := .failed .replay) (by simp) (by simp)
    · rw [heq]
      exact (h.prune (s.ledger.pruned ++ droppedKeys s.ledger.entries base) hbase hnow).setCall i
        (c := .failed .capacity) (by simp) (by simp)
    · rw [heq]
      have hfree := hcond.resolve_left habsent
      exact (h.prune (s.ledger.pruned ++ droppedKeys s.ledger.entries (base.insert _ _)) hbase
        hnow).insert i (h.wellFormed hdigest hcall hcred) (notMem_pruned hbase habsent) hfree

/-! ## Appends -/

/-- The file an append of `r` leaves in the place of `f`. -/
def appendTo (s : DurableState) (r : ReplayRecord) (outcome : AppendOutcome) (f : JournalFile) :
    JournalFile :=
  if f.gen = s.gen ∧ f.shard = shardFor r.keyID then f.append r outcome else f

theorem journalAppend_files (r : ReplayRecord) (outcome : AppendOutcome) :
    (s.journalAppend r outcome).files = s.files.map (s.appendTo r outcome) := rfl

theorem appendTo_gen (f : JournalFile) (r : ReplayRecord) (outcome : AppendOutcome) :
    (s.appendTo r outcome f).gen = f.gen ∧ (s.appendTo r outcome f).shard = f.shard := by
  unfold appendTo
  split
  · match outcome with
    | .ok => exact ⟨rfl, rfl⟩
    | .failed 0 => exact ⟨rfl, rfl⟩
    | .failed (_ + 1) => exact ⟨rfl, rfl⟩
  · exact ⟨rfl, rfl⟩

variable {r x : ReplayRecord}

theorem grows_append (hagree : replayKey r = replayKey x → r = x)
    (f : JournalFile) (outcome : AppendOutcome) : Grows x f (f.append r outcome) := by
  have hone : OnlyAs x [r] := forall_mem_singleton.mpr hagree
  match outcome with
  | .ok => exact ⟨f.last.toList ++ [r], append_assoc _ _ _, fun h => by
      simpa [JournalFile.append] using h.append hone⟩
  | .failed 0 => exact ⟨[], (append_nil _).symm, fun h => h⟩
  | .failed (_ + 1) => exact ⟨f.last.toList, rfl, fun h => h.append hone⟩

theorem grows_refl (x : ReplayRecord) (f : JournalFile) : Grows x f f :=
  ⟨[], (append_nil _).symm, fun h => h⟩

variable {P : JournalFile → Prop}

/-- The files after an append of `r` hold nothing that disagrees with a record `x` that `r` agrees
    with. -/
theorem journalAppend_grows (hagree : replayKey r = replayKey x → r = x) (outcome : AppendOutcome)
    (hP : ∀ f g : JournalFile, f.gen = g.gen → P f → P g) :
    List.Forall₂ (fun f g => (P f → P g) ∧ Grows x f g) s.files
      (s.journalAppend r outcome).files := by
  rw [journalAppend_files, forall₂_map_right_iff, forall₂_same]
  intro f _
  refine ⟨hP f _ (appendTo_gen f r outcome).1.symm, ?_⟩
  unfold appendTo
  split
  · exact grows_append hagree f outcome
  · exact grows_refl x f

theorem settled_of_append (pre : List JournalFile)
    {files : List JournalFile} (h : Settled P r files) : Settled P r (pre ++ files) := by
  induction pre with
  | nil => exact h
  | cons f pre ih => exact .there ih

/-- Key ids have one length, so the replay key determines the key id. -/
theorem keyID_of_replayKey (hr : r.WellFormed) (hx : x.WellFormed)
    (h : replayKey x = replayKey r) : x.keyID = r.keyID := by
  have hlist := congrArg String.toList h
  simp only [replayKey, String.toList_append, append_assoc] at hlist
  have hlength : x.keyID.toList.length = r.keyID.toList.length := by
    rw [validHexID_length hr.keyID, validHexID_length hx.keyID]
  exact String.toList_inj.mp (append_inj_left hlist hlength)

/-- **A synced record is settled**: its file is the last one of its shard. -/
theorem Disk.settled_append (h : s.Disk) (hr : r.WellFormed)
    (hopen : ∃ f ∈ s.files, f.gen = s.gen ∧ f.shard = shardFor r.keyID)
    (hP : ∀ f : JournalFile, f.gen = s.gen → P f) : Settled P r (s.journalAppend r .ok).files := by
  obtain ⟨f, hf, hgen, hshard⟩ := hopen
  obtain ⟨pre, post, hsplit⟩ := append_of_mem hf
  have hlast : ∀ g ∈ post, g.shard ≠ shardFor r.keyID := by
    intro g hg
    have hbefore : f.Before g := by
      have hpair := h.order
      rw [hsplit, pairwise_append] at hpair
      exact (pairwise_cons.mp hpair.2.1).1 g hg
    have hbound : g.gen ≤ s.gen := h.newest g (by rw [hsplit]; simp [hg])
    rcases hbefore with hlt | ⟨-, hlt⟩
    · omega
    · omega
  rw [journalAppend_files, hsplit, map_append, map_cons]
  refine settled_of_append _ ?_
  have hhead : s.appendTo r .ok f = f.append r .ok := if_pos ⟨hgen, hshard⟩
  rw [hhead]
  refine .here (f.recs ++ f.last.toList) [] (hP _ hgen) rfl nofun ?_
  intro g hg x hx hkey
  obtain ⟨g₀, hg₀, rfl⟩ := mem_map.mp hg
  have hother : s.appendTo r .ok g₀ = g₀ := if_neg fun hc => hlast g₀ hg₀ hc.2
  rw [hother] at hx
  have hshape := h.shape g₀ (by rw [hsplit]; simp [hg₀])
  have hid := keyID_of_replayKey hr (hshape.wellFormed x hx) hkey
  exact absurd (hid ▸ hshape.inShard x hx).symm (hlast g₀ hg₀)

theorem needed_journalAppend {outcome : AppendOutcome}
    (h : (s.journalAppend r outcome).Needed x) : s.Needed x ∨ (x = r ∧ outcome = .ok) := by
  obtain ⟨hmem, hlive⟩ := h
  cases outcome with
  | ok =>
    rcases mem_append.mp hmem with hmem | hmem
    · exact .inl ⟨hmem, hlive⟩
    · exact .inr ⟨mem_singleton.mp hmem, rfl⟩
  | failed n => exact .inl ⟨hmem, hlive⟩

section JournalAppend

variable {r : ReplayRecord} {outcome : AppendOutcome}

/-- What the files, the ledger and the conditions say about an append of `r`. -/
structure Appendable (s : DurableState) (r : ReplayRecord) (outcome : AppendOutcome) : Prop where
  wellFormed : r.WellFormed
  agrees : ∀ x, s.Needed x → replayKey r = replayKey x → r = x
  shard : ∃ f ∈ s.files, f.gen = s.gen ∧ f.shard = shardFor r.keyID
  clean : ∀ f ∈ s.files, f.gen = s.gen → f.shard = shardFor r.keyID →
    f.Whole ∧ (∀ n, outcome = .failed n → f.synced = f.data.length) ∧
      f.data.length + (recordBytes r).length ≤ maxJournalBytes

theorem Disk.journalAppend (h : s.Disk) (ha : s.Appendable r outcome) :
    (s.journalAppend r outcome).Disk where
  shape f hf := by
    obtain ⟨g, hg, rfl⟩ := mem_map.mp hf
    split
    next hat =>
      obtain ⟨hwhole, hsynced, hsize⟩ := ha.clean g hg hat.1 hat.2
      exact (h.shape g hg).append ha.wellFormed hat.2.symm hwhole hsynced hsize
    next => exact h.shape g hg
  order := by
    rw [journalAppend_files, pairwise_map]
    refine h.order.imp fun {f g} hfg => ?_
    have hf := appendTo_gen (s := s) f r outcome
    have hg := appendTo_gen (s := s) g r outcome
    simpa only [JournalFile.Before, hf, hg] using hfg
  newest f hf := by
    obtain ⟨g, hg, rfl⟩ := mem_map.mp hf
    have hgen := (appendTo_gen (s := s) g r outcome).1
    exact le_trans (le_of_eq hgen) (h.newest g hg)
  onDisk x hx := by
    rcases needed_journalAppend hx with hold | ⟨rfl, rfl⟩
    · have hgrows := journalAppend_grows (s := s) (ha.agrees x hold) outcome
        (P := fun _ => True) (fun _ _ _ _ => trivial)
      rcases h.onDisk x hold with hsettled | ⟨hsnap, honly⟩
      · exact .inl (hsettled.grows hgrows)
      · exact .inr ⟨hsnap, onlyAs_of_grows (fun _ _ hfg => hfg.2) hgrows honly⟩
    · exact .inl (h.settled_append ha.wellFormed ha.shard fun _ _ => trivial)

/-- What is settled above a generation before the append is settled there after it, and so is the
    new record. -/
theorem Appendable.settledAbove (ha : s.Appendable r outcome) (h : s.Disk) {old : Nat}
    (hold : old < s.gen) {content : ReplayEntries} (hall : ∀ x, s.Needed x →
      content.lookup (replayKey x) = some x ∨ Settled (old < ·.gen) x s.files) :
    ∀ x, (s.journalAppend r outcome).Needed x → content.lookup (replayKey x) = some x ∨
        Settled (old < ·.gen) x (s.journalAppend r outcome).files := by
  intro x hx
  rcases needed_journalAppend hx with hneeded | ⟨rfl, rfl⟩
  · refine (hall x hneeded).imp_right fun hsettled => hsettled.grows ?_
    exact journalAppend_grows (ha.agrees x hneeded) outcome fun f g hfg hlt => hfg ▸ hlt
  · exact .inr (h.settled_append ha.wellFormed ha.shard fun f hf => hf ▸ hold)

theorem Inv.journalAppend (h : s.Inv) (hmode : s.mode = .running) (ha : s.Appendable r outcome)
    (hheld : replayCutoff s.ledger.clock ≤ r.expiresAt →
      s.ledger.entries.lookup (replayKey r) = some r) : (s.journalAppend r outcome).Inv where
  disk := h.disk.journalAppend ha
  pending := by
    refine .of_running hmode (fun snapshot old hc => ?_) fun old hc => ?_
    · obtain ⟨hold, hall⟩ := h.pending.rotated snapshot old hc
      exact ⟨hold, ha.settledAbove h.disk hold hall⟩
    · obtain ⟨hold, hearlier, hall⟩ := h.pending.committed old hc
      exact ⟨hold, hearlier, ha.settledAbove h.disk hold hall⟩
  running _ := {
    issued := (h.running hmode).issued
    shards := fun hi shard hlt => by
      obtain ⟨f, hf, hgen, hshard⟩ := (h.running hmode).shards hi shard hlt
      have hto := appendTo_gen (s := s) f r outcome
      exact ⟨_, mem_map_of_mem hf, hto.1.trans hgen, hto.2.trans hshard⟩
    held := fun x hx => by
      rcases needed_journalAppend hx with hneeded | ⟨rfl, rfl⟩
      · exact (h.running hmode).held x hneeded
      · exact hheld hx.2
    checked := (h.running hmode).checked
    inserted := (h.running hmode).inserted }

end JournalAppend

variable {r : ReplayRecord} {ok : Bool}

theorem Inv.appended (h : s.Inv) (hcall : s.ledger.calls i = .inserted r)
    (hstep : s.ledgerStep crypto (.append i ok) = some t) : t.Inv := by
  simp only [ledgerStep, LedgerState.step, hcall] at hstep
  cases ok with
  | true =>
    cases hstep
    refine h.ledger (le_refl _) fun hr _ => ?_
    have hset := hr.setCall i (c := .accepted r) (by simp) (by simp)
    exact { hset with }
  | false =>
    cases hstep
    exact h.ledger (le_refl _) fun hr _ => hr.setCall i (c := .failed .io) (by simp) (by simp)

theorem Inv.appendStep (h : s.Inv) (hmode : s.mode = .running)
    (hcall : s.ledger.calls i = .inserted r) {outcome : AppendOutcome}
    (hcond : AppendsClean crypto s (.append i outcome))
    (hstep : s.appendStep crypto i r outcome = some t) : t.Inv := by
  have hrunning := h.running hmode
  obtain ⟨hwf, hentry⟩ := hrunning.inserted i r hcall
  unfold DurableState.appendStep at hstep
  rw [encodeReplayRecord_ok hwf] at hstep
  cases hinstalled : s.installed with
  | false =>
    rw [hinstalled] at hstep
    exact h.appended hcall hstep
  | true =>
    rw [hinstalled] at hstep
    have hshard : shardFor r.keyID < replayShards := mod_lt _ (by decide)
    have ha : s.Appendable r outcome := {
      wellFormed := hwf
      agrees := fun x hx hkey => by
        have hheld := hrunning.held x hx
        rcases hentry with hin | ⟨hout, -⟩
        · rw [hkey, hheld, Option.some.injEq] at hin
          exact hin.symm
        · exact absurd (hkey ▸ mem_of_lookup hheld) hout
      shard := hrunning.shards hinstalled _ hshard
      clean := hcond r hcall }
    refine (h.journalAppend hmode ha fun hlive => ?_).appended (i := i) (r := r) hcall hstep
    rcases hentry with hin | ⟨-, hexp⟩
    · exact hin
    · exact absurd hlive (not_le.mpr hexp)

/-! ## Compaction -/

theorem newShards_records {gen count : Nat} {f : JournalFile} (hf : f ∈ newShards gen count) :
    f.gen = gen ∧ f.shard < count ∧ f.records = [] ∧ f.Shape := by
  obtain ⟨shard, hshard, rfl⟩ := mem_map.mp hf
  refine ⟨rfl, mem_range.mp hshard, rfl, ?_⟩
  exact ⟨⟨[], rfl, rfl⟩, le_refl _, le_refl _, zero_le _, nofun, nofun⟩

theorem newShards_order (gen count : Nat) : (newShards gen count).Pairwise JournalFile.Before := by
  rw [newShards, pairwise_map]
  exact pairwise_lt_range.imp fun hlt => .inr ⟨rfl, hlt⟩

theorem Disk.rotated (h : s.Disk) (count : Nat) (installed : Bool) (compaction : Compaction) :
    { s with
      compaction := compaction, gen := s.gen + 1, installed := installed,
      files := s.files ++ newShards (s.gen + 1) count }.Disk where
  shape := forall_mem_append.mpr ⟨h.shape, fun _ hf => (newShards_records hf).2.2.2⟩
  order := by
    rw [pairwise_append]
    refine ⟨h.order, newShards_order _ _, fun f hf g hg => .inl ?_⟩
    have hbound := h.newest f hf
    have hgen := (newShards_records hg).1
    omega
  newest := forall_mem_append.mpr ⟨fun f hf => le_succ_of_le (h.newest f hf),
    fun f hf => le_of_eq (newShards_records hf).1⟩
  onDisk r hr := by
    have hempty : ∀ g ∈ newShards (s.gen + 1) count, OnlyAs r g.records := by
      intro g hg
      rw [(newShards_records hg).2.2.1]
      exact nofun
    rcases h.onDisk r hr with hsettled | ⟨hsnap, honly⟩
    · exact .inl (hsettled.append hempty)
    · exact .inr ⟨hsnap, forall_mem_append.mpr ⟨honly, hempty⟩⟩

theorem Inv.counters (h : s.Inv) (records : Int) (rotated : Option Int) :
    { s with ledger := { s.ledger with records := records, rotated := rotated } }.Inv :=
  h.ledger (le_refl _) fun hr _ => { hr with }

theorem Inv.rotateFailed (h : s.Inv) (hmode : s.mode = .running) (hidle : s.compaction = .idle)
    (created : Nat) :
    { s with
      gen := s.gen + 1, installed := false,
      files := s.files ++ newShards (s.gen + 1) created }.Inv where
  disk := h.disk.rotated created false s.compaction
  pending := .of_idle hidle (fun _ hm => nomatch hmode.symm.trans hm)
    fun _ hm => nomatch hmode.symm.trans hm
  running _ :=
    have hr := h.running hmode
    ⟨hr.issued, nofun, hr.held, hr.checked, hr.inserted⟩

/-- The snapshot of a rotation is the ledger in memory, which holds what is needed. -/
theorem Inv.rotated (h : s.Inv) (hmode : s.mode = .running) :
    { s with
      compaction := .rotated (unexpired s.ledger.entries s.ledger.clock) s.gen
      gen := s.gen + 1, installed := true,
      files := s.files ++ newShards (s.gen + 1) replayShards }.Inv where
  disk := h.disk.rotated replayShards true _
  pending := by
    refine .of_running hmode (fun snapshot old hc => ?_) nofun
    cases hc
    refine ⟨lt_succ_self _, fun r hr => .inl ?_⟩
    exact lookup_filter_eq_some.mpr ⟨(h.running hmode).held r hr, decide_eq_true hr.2⟩
  running _ :=
    have hr := h.running hmode
    ⟨hr.issued, fun _ shard hlt => ⟨⟨s.gen + 1, shard, [], 0, [], none⟩,
      mem_append_right _ (mem_map.mpr ⟨shard, mem_range.mpr hlt, rfl⟩), rfl, rfl⟩,
      hr.held, hr.checked, hr.inserted⟩

theorem Inv.rotateStep (h : s.Inv) (hmode : s.mode = .running) (hidle : s.compaction = .idle)
    {failed : Option Nat} (hstep : s.rotateStep crypto failed = some t) : t.Inv := by
  cases failed with
  | some created =>
    simp only [DurableState.rotateStep] at hstep
    split_ifs at hstep
    cases hstep
    exact h.rotateFailed hmode hidle created
  | none =>
    simp only [DurableState.rotateStep, ledgerStep, LedgerState.step] at hstep
    split at hstep
    next =>
      cases hstep
      exact (h.rotated hmode).counters s.ledger.records (some s.ledger.records)
    next => cases hstep

theorem Inv.compacted (h : s.Inv)
    (hstep : { s with compaction := .idle }.ledgerStep crypto (.compacted ok) = some t) : t.Inv := by
  have hidle : { s with compaction := .idle }.Inv := {
    disk := { h.disk with }
    pending := .of_idle rfl h.pending.merged h.pending.folded
    running := fun hm =>
      have hr := h.running hm
      { hr with } }
  simp only [ledgerStep, LedgerState.step] at hstep
  split at hstep
  next => cases hstep
  next count _ =>
  cases ok with
  | true =>
    cases hstep
    exact hidle.counters (s.ledger.records - count) none
  | false =>
    cases hstep
    exact hidle.counters s.ledger.records none

/-! ## Commits and deletions -/

/-- The disk after a commit of a content that holds what the files do not settle. -/
theorem Disk.commitContent (h : s.Disk) {content : ReplayEntries} (hcontent : ∀ r, s.Needed r →
      content.lookup (replayKey r) = some r ∨ Settled (fun _ => True) r s.files)
    (outcome : CommitOutcome) : (s.commitContent content outcome).Disk := by
  have hdisk : ∀ contents : List ReplayEntries,
      (∀ c ∈ contents, c = content ∨ c ∈ s.snapshot :: s.earlier) →
      ∀ r, s.Needed r → Settled (fun _ => True) r s.files ∨
        ((∀ c ∈ contents, c.lookup (replayKey r) = some r) ∧ ∀ f ∈ s.files, OnlyAs r f.records) := by
    intro contents hsub r hr
    rcases h.onDisk r hr with hsettled | ⟨hsnap, honly⟩
    · exact .inl hsettled
    refine (hcontent r hr).elim (fun hin => .inr ⟨fun c hc => ?_, honly⟩) .inl
    rcases hsub c hc with rfl | hold
    · exact hin
    · exact hsnap c hold
  cases outcome with
  | notCommitted => exact h
  | committedWithError =>
    exact ⟨h.shape, h.order, h.newest, hdisk (content :: s.snapshot :: s.earlier)
      fun c hc => mem_cons.mp hc⟩
  | ok =>
    exact ⟨h.shape, h.order, h.newest, hdisk [content] fun c hc => .inl (mem_singleton.mp hc)⟩

variable {files : List JournalFile}

theorem settled_weaken {P Q : JournalFile → Prop}
    (hPQ : ∀ f, P f → Q f) (h : Settled P r files) : Settled Q r files :=
  h.grows (forall₂_same.mpr fun f _ => ⟨hPQ f, grows_refl r f⟩)

theorem Inv.commitContent (h : s.Inv) (hmode : s.mode = .running) {snapshot : ReplayEntries}
    {old : Nat} (hrotated : s.compaction = .rotated snapshot old) (outcome : CommitOutcome) :
    (s.commitContent snapshot outcome).Inv := by
  obtain ⟨hold, hall⟩ := h.pending.rotated snapshot old hrotated
  have hdisk := h.disk.commitContent
    (fun r hr => (hall r hr).imp_right (settled_weaken fun _ _ => trivial)) outcome
  have hr := h.running hmode
  cases outcome with
  | notCommitted => exact h
  | _ => exact {
      disk := hdisk
      pending := .of_running hmode h.pending.rotated fun _ hc => nomatch hrotated.symm.trans hc
      running := fun _ => { hr with } }

theorem Inv.of_down (h : s.Disk) (hmode : s.mode = .down) (hidle : s.compaction = .idle) : s.Inv where
  disk := h
  pending := .of_idle hidle (fun _ hm => nomatch hmode.symm.trans hm)
    fun _ hm => nomatch hmode.symm.trans hm
  running hm := nomatch hmode.symm.trans hm

/-- A recovery that has its snapshot on disk, or nothing to delete. -/
theorem Inv.of_folded (h : s.Disk) (hmode : s.mode = .folded entries) (hidle : s.compaction = .idle)
    (hentries : ∀ r, s.Needed r → entries.lookup (replayKey r) = some r)
    (hfiles : s.files = [] ∨ s.snapshot = entries ∧ s.earlier = []) : s.Inv where
  disk := h
  pending := by
    refine .of_idle hidle (fun _ hm => nomatch hmode.symm.trans hm) fun entries' hm => ?_
    rw [hmode, Mode.folded.injEq] at hm
    subst hm
    exact ⟨hentries, hfiles⟩
  running hm := nomatch hmode.symm.trans hm

theorem Inv.commitStep (h : s.Inv) {outcome : CommitOutcome}
    (hstep : s.commitStep crypto outcome = some t) : t.Inv := by
  unfold DurableState.commitStep at hstep
  split at hstep
  next snapshot old hmode hrotated =>
    have hcommitted := h.commitContent hmode hrotated outcome
    split at hstep
    next =>
      cases hstep
      obtain ⟨hold, hall⟩ := h.pending.rotated snapshot old hrotated
      have hr := h.running hmode
      exact {
        disk := { hcommitted.disk with }
        pending := by
          refine .of_running hmode nofun fun old' hc => ?_
          cases hc
          exact ⟨hold, rfl, hall⟩
        running := fun _ => { hr with } }
    next => exact hcommitted.compacted hstep
  next _ entries hmode =>
    have hentries := h.pending.merged entries hmode
    have hidle : s.compaction = .idle := h.pending.quiet (by simp [hmode])
    have hdisk := h.disk.commitContent (fun r hr => .inl (hentries r hr)) outcome
    split at hstep
    next =>
      cases hstep
      exact .of_folded { hdisk with } rfl hidle hentries
        (.inr ⟨rfl, rfl⟩)
    next =>
      cases hstep
      refine .of_down { hdisk with } rfl ?_
      cases outcome <;> exact hidle
  next => cases hstep

/-- The oldest file is deleted while the snapshot, or a later file, has what is needed. -/
theorem Disk.remove (h : s.Disk) {f : JournalFile} (hfiles : s.files = f :: files)
    (hsafe : ∀ r, s.Needed r →
      (∀ content ∈ s.snapshot :: s.earlier, content.lookup (replayKey r) = some r) ∨
        Settled (fun _ => True) r files) : { s with files := files }.Disk where
  shape g hg := h.shape g (hfiles ▸ mem_cons_of_mem _ hg)
  order := (pairwise_cons.mp (hfiles ▸ h.order)).2
  newest g hg := h.newest g (hfiles ▸ mem_cons_of_mem _ hg)
  onDisk r hr := by
    rcases hsafe r hr with hsnap | hsettled
    · rcases h.onDisk r hr with hsettled | ⟨-, honly⟩
      · rw [hfiles] at hsettled
        exact hsettled.tail.imp_right fun hrest => ⟨hsnap, hrest.2⟩
      · exact .inr ⟨hsnap, fun g hg => honly g (hfiles ▸ mem_cons_of_mem _ hg)⟩
    · exact .inl hsettled

theorem Inv.removeStep (h : s.Inv) (hstep : s.removeStep crypto ok = some t) :
    t.Inv := by
  unfold DurableState.removeStep at hstep
  split at hstep
  next old f files hmode hcommitted hfiles =>
    obtain ⟨hold, hearlier, hall⟩ := h.pending.committed old hcommitted
    split at hstep
    next hgen =>
      split at hstep
      next =>
        cases hstep
        -- what a later generation settles does not depend on this file
        have habove : ∀ r, s.Needed r → s.snapshot.lookup (replayKey r) = some r ∨
            Settled (old < ·.gen) r files := by
          intro r hr
          refine (hall r hr).imp_right fun hsettled => ?_
          rw [hfiles] at hsettled
          exact hsettled.tail.resolve_right fun hhere => absurd hhere.1 (not_lt.mpr hgen)
        have hr := h.running hmode
        exact {
          disk := h.disk.remove hfiles fun r hr => by
            refine (habove r hr).imp (fun hsnap content hc => ?_) (settled_weaken fun _ _ => trivial)
            rw [hearlier, mem_singleton] at hc
            exact hc ▸ hsnap
          pending := by
            refine .of_running hmode (fun _ _ hc => nomatch hcommitted.symm.trans hc)
              fun old' hc => ?_
            rw [hcommitted, Compaction.committed.injEq] at hc
            subst hc
            exact ⟨hold, hearlier, habove⟩
          running := fun _ => { hr with
            shards := fun hi shard hlt => by
              obtain ⟨g, hg, hggen, hshard⟩ := hr.shards hi shard hlt
              rw [hfiles] at hg
              rcases mem_cons.mp hg with rfl | hg
              · omega
              · exact ⟨g, hg, hggen, hshard⟩ } }
      next => exact h.compacted hstep
    next => cases hstep
  next _ _ _ entries f files hmode hfiles =>
    obtain ⟨hentries, hsnap⟩ := h.pending.folded entries hmode
    have hidle : s.compaction = .idle := h.pending.quiet (by simp [hmode])
    split at hstep
    next =>
      cases hstep
      obtain ⟨hsnapshot, hearlier⟩ := hsnap.resolve_left (by simp [hfiles])
      refine .of_folded (h.disk.remove hfiles fun r hr => .inl fun content hc => ?_) hmode hidle
        hentries (.inr ⟨hsnapshot, hearlier⟩)
      rw [hearlier, mem_singleton] at hc
      rw [hc, hsnapshot]
      exact hentries r hr
    next =>
      cases hstep
      exact .of_down { h.disk with } rfl hidle
  next => cases hstep

/-! ## Crashes and recovery -/

variable {images : List (Nat × Nat)}

theorem crashedFiles_spec {files files' : List JournalFile}
    (h : crashedFiles files images = some files') :
    List.Forall₂ (fun f g => ∃ kept zeros, f.crashed kept zeros = some g) files files' := by
  induction files generalizing images files' with
  | nil =>
    cases images with
    | nil =>
      cases h
      exact .nil
    | cons image images => cases h
  | cons f files ih =>
    cases images with
    | nil => cases h
    | cons image images =>
      simp only [crashedFiles, Option.bind_eq_bind, Option.bind_eq_some_iff, Option.pure_def,
        Option.some.injEq] at h
      obtain ⟨g, hg, rest, hrest, rfl⟩ := h
      exact .cons ⟨image.1, image.2, hg⟩ (ih hrest)

theorem order_iff_names :
    files.Pairwise JournalFile.Before ↔ (files.map fun f => (f.gen, f.shard)).Pairwise
      fun a b => a.1 < b.1 ∨ a.1 = b.1 ∧ a.2 < b.2 := by
  rw [pairwise_map]
  rfl

/-- A crash keeps the records of the files, the damage to the last ones apart. -/
theorem Disk.crashed (h : s.Disk)
    (hfiles : crashedFiles s.files images = some files) {snapshot : ReplayEntries}
    (hsnapshot : snapshot ∈ s.snapshot :: s.earlier) : { s with
      mode := .down, compaction := .idle, files := files, snapshot := snapshot,
      earlier := [] }.Disk := by
  have hspec : List.Forall₂ (fun f g => g.Shape ∧ g.gen = f.gen ∧ g.shard = f.shard ∧
      g.recs = f.recs ∧ g.last = f.last) s.files files := by
    refine (forall₂_iff_zip.mp (crashedFiles_spec hfiles)).elim fun hlength hzip => ?_
    refine forall₂_iff_zip.mpr ⟨hlength, fun {f g} hfg => ?_⟩
    obtain ⟨kept, zeros, hcrash⟩ := hzip hfg
    exact (h.shape f (of_mem_zip hfg).1).crashed hcrash
  have hnames : files.map (fun f => (f.gen, f.shard)) = s.files.map fun f => (f.gen, f.shard) := by
    rw [← forall₂_eq_eq_eq, forall₂_map_left_iff, forall₂_map_right_iff]
    exact (hspec.imp fun f g hfg => Prod.ext hfg.2.1 hfg.2.2.1).flip
  have hgrows : ∀ r, List.Forall₂ (fun f g => (True → True) ∧ Grows r f g) s.files files := by
    intro r
    refine hspec.imp fun f g hfg => ⟨fun h => h, [], ?_, ?_⟩
    · rw [hfg.2.2.2.1, append_nil]
    · rw [hfg.2.2.2.2]
      exact fun h => h
  exact {
    shape := ((forall₂_and_left _ _).mp (List.Forall₂.flip hspec)).1
    order := order_iff_names.mpr (hnames ▸ order_iff_names.mp h.order)
    newest := fun g hg => by
      have hmem : (g.gen, g.shard) ∈ s.files.map fun f => (f.gen, f.shard) :=
        hnames ▸ mem_map_of_mem hg
      obtain ⟨f, hf, heq⟩ := mem_map.mp hmem
      exact le_trans (le_of_eq (congrArg Prod.fst heq).symm) (h.newest f hf)
    onDisk := fun r hr => by
      rcases h.onDisk r hr with hsettled | ⟨hsnap, honly⟩
      · exact .inl (hsettled.grows (hgrows r))
      · exact .inr ⟨forall_mem_singleton.mpr (hsnap snapshot hsnapshot),
          onlyAs_of_grows (fun _ _ hfg => hfg.2) (hgrows r) honly⟩ }

theorem Inv.crashStep (h : s.Inv) {content : Nat}
    (hstep : s.crashStep images content = some t) : t.Inv := by
  simp only [DurableState.crashStep, Option.bind_eq_bind, Option.bind_eq_some_iff, Option.pure_def,
    Option.some.injEq] at hstep
  obtain ⟨files, hfiles, snapshot, hsnapshot, rfl⟩ := hstep
  exact .of_down (h.disk.crashed hfiles (mem_of_getElem? hsnapshot)) rfl rfl

theorem Inv.loadStep (h : s.Inv) (hmode : s.mode = .down) : s.loadStep.Inv := by
  obtain ⟨entries, hentries, hlookup⟩ := h.disk.recovered
  have hidle : s.compaction = .idle := h.pending.quiet (by simp [hmode])
  have hlive : ∀ r, s.Needed r →
      (unexpired entries s.ledger.clock).lookup (replayKey r) = some r := fun r hr =>
    lookup_filter_eq_some.mpr ⟨hlookup r hr, decide_eq_true hr.2⟩
  unfold DurableState.loadStep
  rw [hentries]
  dsimp only
  by_cases hempty : s.files.isEmpty
  · rw [if_pos hempty]
    exact .of_folded { h.disk with } rfl hidle hlive (.inl (isEmpty_iff.mp hempty))
  rw [if_neg hempty]
  exact {
    disk := { h.disk with }
    pending := by
      refine .of_idle hidle (fun entries' hm => ?_) nofun
      cases hm
      exact hlive
    running := nofun }

/-- With no journal left, every needed record is in every content of `replay.json`; the first
    generation starts empty. -/
theorem Disk.create (h : s.Disk) (hfiles : s.files = []) (count : Nat) (ledger : LedgerState)
    (hclock : ledger.clock = s.ledger.clock) (mode : Mode) (compaction : Compaction)
    (installed : Bool) : { s with
      ledger := ledger, mode := mode, compaction := compaction, gen := 1, installed := installed,
      files := newShards 1 count }.Disk where
  shape f hf := (newShards_records hf).2.2.2
  order := newShards_order 1 count
  newest f hf := le_of_eq (newShards_records hf).1
  onDisk r hr := by
    have hneeded : s.Needed r := ⟨hr.1, hclock ▸ hr.2⟩
    rcases h.onDisk r hneeded with hsettled | ⟨hsnap, -⟩
    · rw [hfiles] at hsettled
      cases hsettled
    · refine .inr ⟨hsnap, fun f hf => ?_⟩
      rw [(newShards_records hf).2.2.1]
      exact nofun

theorem Inv.createStep (h : s.Inv) (hmode : s.mode = .folded entries)
    (hfiles : s.files = []) {registry : RegistryFile} (hissued : registry.issued) {bootID : String}
    {failed : Option Nat} (hstep : s.createStep failed bootID registry entries = some t) :
    t.Inv := by
  have hentries := (h.pending.folded entries hmode).1
  have hidle : s.compaction = .idle := h.pending.quiet (by simp [hmode])
  cases failed with
  | some created =>
    simp only [DurableState.createStep] at hstep
    split_ifs at hstep
    cases hstep
    exact .of_down (h.disk.create hfiles created s.ledger rfl .down s.compaction s.installed) rfl
      hidle
  | none =>
    cases hstep
    exact {
      disk := h.disk.create hfiles replayShards (bootLedger s.ledger.clock bootID registry entries)
        rfl .running .idle true
      pending := .of_idle rfl nofun nofun
      running := fun _ => {
        issued := hissued
        shards := fun _ shard hlt => ⟨⟨1, shard, [], 0, [], none⟩,
          mem_map.mpr ⟨shard, mem_range.mpr hlt, rfl⟩, rfl, rfl⟩
        held := hentries
        checked := nofun
        inserted := nofun } }

/-! ## Runs -/

theorem Inv.step (hdigest : ∀ body, validHexID (crypto.bodyDigest body) 32) (h : s.Inv)
    {e : DurableEvent} (hcond : AppendsClean crypto s e) (hstep : s.step crypto e = some t) :
    t.Inv := by
  revert hstep
  fun_cases s.step crypto e with
  | case1 now =>
    rintro ⟨⟩
    exact h.tick hcond
  | case2 registry hissued =>
    rintro ⟨⟩
    exact h.ledger (le_refl _) fun hr _ =>
      ⟨hissued, hr.shards, hr.held, hr.checked, hr.inserted⟩
  | case4 i req _ hrange =>
    simp only [ledgerStep, LedgerState.step]
    split
    next =>
      split
      next err _ =>
        rintro ⟨⟩
        exact h.ledger (le_refl _) fun hr _ =>
          hr.setCall i (c := .failed err) (by simp) (by simp)
      next hchecks =>
        rintro ⟨⟩
        refine h.ledger (le_refl _) fun hr _ => hr.setCall i (fun req' now hc => ?_) (by simp)
        cases hc
        exact ⟨checkEnvelope_requestID hchecks, hrange, le_refl _⟩
    next => rintro ⟨⟩
  | case7 i =>
    simp only [ledgerStep, LedgerState.step]
    split
    next req now hcall =>
      rintro ⟨⟩
      refine h.ledger (le_of_eq ?_) fun hr _ => hr.decided hdigest hcall (hcond req now hcall)
      unfold LedgerState.decided
      split <;> rfl
    next => rintro ⟨⟩
  | case9 i outcome r hcall hmode => exact h.appendStep hmode hcall hcond
  | case11 failed hidle hmode => exact h.rotateStep hmode hidle
  | case13 => exact h.commitStep
  | case14 => exact h.removeStep
  | case15 =>
    fun_cases s.finishStep crypto with
    | case1 => exact h.compacted
    | _ => rintro ⟨⟩
  | case16 =>
    rintro ⟨⟩
    exact .of_down { h.disk with } rfl rfl
  | case17 => exact h.crashStep
  | case18 hmode =>
    rintro ⟨⟩
    exact h.loadStep hmode
  | case20 failed bootID registry entries hissued hfiles hmode =>
    exact h.createStep hmode hfiles hissued
  | _ => rintro ⟨⟩

theorem inv_blank (clock : Int) : (blank clock).Inv :=
  .of_down ⟨nofun, .nil, nofun, (fun _ hr => nomatch hr.1)⟩ rfl
    rfl

end DurableState

end AgentMultiplexer.Access
