import AgentMultiplexer.Access.RegistryRuns

set_option autoImplicit false

/-! # Invalidation watchers

A long-lived connection asks the authority for a channel that is closed when its credential is
rotated or revoked. Registering reads the published registry, an atomic pointer, under `watchMu`; a
writer stores the new registry without that lock and takes it afterwards, to close the channels of
the key it invalidated. Between the two a registration may still be under way with the old registry
in hand; it holds `watchMu`, so the writer finds its channel.

A registration is cut here into the load and the rest, so that a store can fall in between. -/

namespace AgentMultiplexer.Access

open AList List Option Transition RegistryFile GoMap RegistryOp

/-- The channels registered for one key. -/
abbrev ChannelSet := GoMap Nat Unit

/-- Where the holder of `writeMu` stands: nothing published, a registry stored and the watchers of
    this key to be told, or the authority closed and all watchers to be told. -/
inductive WriterPhase
  | idle
  | sweeping (keyID : String)
  | closing
  deriving DecidableEq

/-- The authority as far as watchers concern it. `loading` is the registration that holds `watchMu`,
    with the registry it loaded. The last three fields are history: the channels that were handed
    out, those that were cancelled, and every `close` of a channel. -/
structure WatchState where
  authority : FileAuthority
  view : Option RegistryFile
  watchers : GoMap String ChannelSet
  writer : WriterPhase
  loading : Option (Principal × Option RegistryFile)
  nextChannel : Nat
  registered : List (Nat × Principal)
  cancelled : List Nat
  closedChannels : List Nat

def WatchState.initial (r : RegistryFile) : WatchState where
  authority := ⟨r, false⟩
  view := some r
  watchers := ∅
  writer := .idle
  loading := none
  nextChannel := 0
  registered := []
  cancelled := []
  closedChannels := []

/-- The key an operation names to `publish` when it commits: the predecessor of an issue, the key of
    a revocation, the empty string for the first key of a subject. -/
def RegistryOp.invalidatedKey (r : RegistryFile) : RegistryOp → String
  | .ensure _ _ => ""
  | .rotate kind id | .renewExpired kind id _ | .revoke kind id => r.currentID kind id
  | .revokeCurrent p => r.currentID p.kind p.subjectID
  | .regrant kind id _ =>
    match r.lastRecordLocked kind id with
    | .ok rec => rec.keyID
    | .error _ => ""

inductive WatchEvent
  /-- A writing operation up to the store in `publish`, with a freshly drawn key. -/
  | write (op : RegistryOp) (env : CallEnv)
  /-- The end of `publish`: the watchers of the invalidated key are closed. -/
  | sweep
  | watch (p : Principal)
  | admits (now : Int)
  | cancel (channel : Nat)
  | close
  | closeSweep

namespace WatchState

/-- `publish`, up to the release of `mu`. -/
def publish (s : WatchState) (next : RegistryFile) (invalidated : String) : WatchState :=
  { s with
    authority := { s.authority with registry := next }
    view := some next
    writer := if invalidated = "" then .idle else .sweeping invalidated }

/-- The channels in `a.watchers[keyID]`. -/
def channels (s : WatchState) (keyID : String) : ChannelSet := s.watchers.get keyID ∅

def invalidateLocked (s : WatchState) (keyID : String) : WatchState :=
  { s with
    closedChannels := s.closedChannels ++ (s.channels keyID).keys
    watchers := s.watchers.erase keyID }

/-- `WatchInvalidation`, after the validity check. -/
def register (s : WatchState) (p : Principal) : WatchState :=
  { s with
    watchers := s.watchers.insert p.keyID ((s.channels p.keyID).insert s.nextChannel ())
    loading := none
    nextChannel := s.nextChannel + 1
    registered := s.registered ++ [(s.nextChannel, p)] }

/-- The cancel function returned with a channel. -/
def cancel (s : WatchState) (channel : Nat) (p : Principal) : WatchState :=
  let left := (s.channels p.keyID).erase channel
  { s with
    watchers :=
      if (s.watchers.lookup p.keyID).isNone then s.watchers
      else if GoMap.len left = 0 then s.watchers.erase p.keyID
      else s.watchers.insert p.keyID left
    cancelled := s.cancelled ++ [channel] }

/-- One critical section. A section under `watchMu` waits while a registration holds it. -/
def step (fits : RegistryFile → Bool) (s : WatchState) : WatchEvent → Option WatchState
  | .write op env =>
    if s.writer = .idle ∧ env.keyID ≠ "" ∧ env.keyID ∉ s.authority.registry.records then
      let out := op.call fits s.authority env
      if out.committed then
        some (s.publish out.registry (op.invalidatedKey s.authority.registry))
      else some s
    else none
  | .sweep =>
    match s.writer with
    | .sweeping keyID =>
      if s.loading.isSome then none
      else some { s.invalidateLocked keyID with writer := .idle }
    | _ => none
  | .watch p => if s.loading.isSome then none else some { s with loading := some (p, s.view) }
  | .admits now =>
    match s.loading with
    | none => none
    | some (_, none) => some { s with loading := none }
    | some (p, some view) =>
      if view.validIn now p = none then some (s.register p)
      else some { s with loading := none }
  | .cancel channel =>
    if s.loading.isSome then none
    else (s.registered.find? fun r => r.1 = channel).map fun r => s.cancel channel r.2
  | .close =>
    if s.writer = .idle ∧ s.authority.closed = false then
      some { s with
        authority := { s.authority with closed := true }
        view := none
        writer := .closing }
    else none
  | .closeSweep =>
    if s.writer = .closing ∧ s.loading = none then
      some { s.watchers.keys.foldl invalidateLocked s with writer := .idle }
    else none

end WatchState

/-! ## A published invalidation is final -/

/-- The key's record is revoked. -/
def RegistryFile.Revoked (r : RegistryFile) (keyID : String) : Prop :=
  ∃ rec, r.records.lookup keyID = some rec ∧ rec.revokedAt ≠ 0

variable {r : RegistryFile}

theorem RegistryFile.Revoked.retains {r' : RegistryFile} {keyID : String} (h : r.Revoked keyID)
    (hr : r.Retains r') : r'.Revoked keyID := by
  obtain ⟨rec, hl, hrev⟩ := h
  obtain ⟨rec', hl', -, -, -, hstays⟩ := hr keyID rec hl
  exact ⟨rec', hl', hstays hrev⟩

theorem RegistryFile.Revoked.not_valid {p : Principal} (h : r.Revoked p.keyID)
    (now : Int) : r.validIn now p ≠ none := by
  intro hvalid
  obtain ⟨rec, hl, hrev⟩ := h
  obtain ⟨⟨rec', hl', -, -, -, -, hzero⟩, -⟩ := validIn_eq_none_iff.mp hvalid
  obtain rfl : rec = rec' := mem_unique hl hl'
  exact hrev hzero

theorem RegistryFile.Latest.unique {kind : SubjectKind} {id : String}
    {rec rec' : CredentialRecord} (hok : r.Ok) (h : r.Latest kind id rec)
    (h' : r.Latest kind id rec') : rec = rec' := by
  have hgen := latest_hasGeneration h
  have hgen' := latest_hasGeneration h'
  obtain ⟨n, hrange, hone⟩ := hok.generations kind id
  have heq : rec.generation = rec'.generation :=
    le_antisymm (h'.2.2.2 _ _ hgen) (h.2.2.2 _ _ hgen')
  have hkey : rec.keyID = rec'.keyID :=
    (hone _ (hrange _ _ hgen).1 (hrange _ _ hgen).2).unique hgen (heq ▸ hgen')
  exact mem_unique h.1 (hkey ▸ h'.1)

variable {fits : RegistryFile → Bool}

theorem RegistryFile.Revokes.invalidatedKey {kind : SubjectKind} {id : String}
    {rec : CredentialRecord} {op : RegistryOp} (h : Revokes kind id rec op)
    (hcur : r.currentID kind id = rec.keyID) : op.invalidatedKey r = rec.keyID := by
  cases h with
  | any => exact hcur
  | exactly p hkind hid _ _ => rw [RegistryOp.invalidatedKey, hkind, hid, hcur]

/-- What a committed call tells `publish` to invalidate is revoked in the registry it stores. -/
theorem call_revokes_invalidatedKey {a : FileAuthority}
    (h : a.registry.Ok) {op : RegistryOp} {env : CallEnv} (hfresh : env.keyID ∉ a.registry.records)
    (hcom : (op.call fits a env).committed = true) (hkey : op.invalidatedKey a.registry ≠ "") :
    (op.call fits a env).registry.Revoked (op.invalidatedKey a.registry) := by
  rcases call_effect fits h op env with
    ⟨hno, -⟩ | ⟨-, hi, hretire, hreg⟩ | ⟨-, hr, hcur, hl, -, -, hreg⟩
  · rw [hno] at hcom
    cases hcom
  · rename_i kind id oldKeyID generation records
    rw [hreg]
    cases hi with
    | first _ _ => exact absurd rfl hkey
    | rotate rec hcur hl | renew rec hcur hl =>
      refine ⟨_, ?_, rec.revoke_revokedAt_ne env.now⟩
      rw [invalidatedKey, hcur, issue_lookup_old h hretire hfresh hl, if_pos rfl]
    | regrant rec _ hlatest hrev =>
      -- the predecessor was revoked before
      cases hlast : a.registry.lastRecordLocked kind id with
      | error err => simp [invalidatedKey, hlast] at hkey
      | ok rec' =>
        obtain rfl := hlatest.unique h (lastRecordLocked_latest hlast)
        have hrevoked : a.registry.Revoked rec.keyID := ⟨rec, hlatest.1, hrev⟩
        simp only [invalidatedKey, hlast]
        exact hrevoked.retains (retains_issue h hfresh hretire)
  · rename_i kind id rec
    rw [hreg, hr.invalidatedKey hcur, revokeRecord]
    exact ⟨_, lookup_insert _, rec.revoke_revokedAt_ne env.now⟩

/-- **No key ends unnoticed.** A key that a call ends, by rotation, renewal, regrant or revocation,
    is the one it tells `publish` to invalidate. -/
theorem invalidatedKey_of_revoked {a : FileAuthority} (h : a.registry.Ok) {op : RegistryOp}
    {env : CallEnv} (hfresh : env.keyID ∉ a.registry.records) {key : String}
    {rec : CredentialRecord} (hl : a.registry.records.lookup key = some rec)
    (hlive : rec.revokedAt = 0) (hrev : (op.call fits a env).registry.Revoked key) :
    op.invalidatedKey a.registry = key := by
  obtain ⟨rec', hl', hne⟩ := hrev
  rcases call_effect fits h op env with
    ⟨-, hsame⟩ | ⟨-, hi, hretire, hreg⟩ | ⟨-, hr, hcur, hl₀, -, -, hreg⟩
  · rw [hsame, hl] at hl'
    cases hl'
    exact absurd hlive hne
  · rw [hreg, issue_lookup_old h hretire hfresh hl] at hl'
    cases hl'
    split at hne
    next hold =>
      cases hi with
      | first _ _ => exact absurd hold (h.keyed _ _ hl).2
      | rotate _ hcur _ | renew _ hcur _ => exact hcur.trans hold.symm
      | regrant old _ hlatest hrevoked =>
        -- the predecessor of a regrant had ended before
        cases (hold ▸ hlatest.1).symm.trans hl
        exact absurd hlive hrevoked
    next => exact absurd hlive hne
  · rw [hreg, revokeRecord, lookup_insert_ite] at hl'
    split at hl'
    next hkey => exact (hr.invalidatedKey hcur).trans hkey.symm
    next =>
      cases hl.symm.trans hl'
      exact absurd hlive hne

/-! ## The watcher table -/

namespace WatchState

variable {s : WatchState} {keyID key : String} {channel : Nat}

theorem channels_insert (m : GoMap String ChannelSet) (set : ChannelSet) :
    .get (m.insert keyID set) key ∅ = if key = keyID then set else m.get key ∅ := by
  rw [GoMap.get, GoMap.lookup_insert_ite]
  split <;> rfl

theorem channels_erase (m : GoMap String ChannelSet) :
    .get (m.erase keyID) key ∅ = if key = keyID then ∅ else m.get key ∅ := by
  rw [GoMap.get, GoMap.lookup_erase_ite]
  split <;> rfl

/-- Cancelling takes its own channel out of its key's set, and nothing else. -/
theorem mem_channels_cancel {p : Principal} {c : Nat} :
    c ∈ (s.cancel channel p).channels key ↔
      c ∈ s.channels key ∧ ¬ (key = p.keyID ∧ c = channel) := by
  have hset : (s.cancel channel p).channels key =
      get (if (s.watchers.lookup p.keyID).isNone then s.watchers
        else if len ((s.channels p.keyID).erase channel) = 0 then s.watchers.erase p.keyID
        else s.watchers.insert p.keyID ((s.channels p.keyID).erase channel)) key ∅ := rfl
  have hempty : c ∉ (∅ : ChannelSet) := notMem_empty c
  rw [hset]
  by_cases hnone : (s.watchers.lookup p.keyID).isNone
  · -- the key has no watchers any more
    have hlookup : s.watchers.lookup p.keyID = none := by simpa using hnone
    rw [if_pos hnone]
    by_cases hkey : key = p.keyID
    · simp [channels, hkey, get_of_lookup_none hlookup, hempty]
    · simp [channels, hkey]
  rw [if_neg hnone]
  by_cases hlen : len ((s.channels p.keyID).erase channel) = 0
  · have hleft : c ∉ (s.channels p.keyID).erase channel := by
      intro hmem
      rw [len, length_eq_zero_iff] at hlen
      rw [AList.mem_keys, AList.keys, hlen] at hmem
      cases hmem
    rw [mem_erase] at hleft
    rw [if_pos hlen, channels_erase]
    by_cases hkey : key = p.keyID
    · rw [if_pos hkey, hkey]
      tauto
    · simp [channels, hkey]
  · rw [if_neg hlen, channels_insert]
    by_cases hkey : key = p.keyID
    · rw [if_pos hkey, hkey, mem_erase]
      tauto
    · simp [channels, hkey]

end WatchState

/-- What holds between sections: the published registry is the current one, a registry on its way to
    the watchers has the key revoked, and every channel handed out is closed, cancelled or in the
    table under its key; a channel in the table has not been closed. -/
structure WatchInv (s : WatchState) : Prop where
  ok : s.authority.registry.Ok
  view : ∀ v, s.view = some v → v = s.authority.registry
  sweeping : ∀ key, s.writer = .sweeping key → s.authority.registry.Revoked key
  fresh : ∀ r ∈ s.registered, r.1 < s.nextChannel
  unique : ∀ c p p', (c, p) ∈ s.registered → (c, p') ∈ s.registered → p = p'
  place : ∀ c p, (c, p) ∈ s.registered →
    c ∈ s.closedChannels ∨ c ∈ s.cancelled ∨ c ∈ s.channels p.keyID
  watching : ∀ key c, c ∈ s.channels key →
    (∃ p, (c, p) ∈ s.registered ∧ p.keyID = key) ∧ c ∉ s.closedChannels
  closedFresh : ∀ c ∈ s.closedChannels, c < s.nextChannel
  nodup : s.closedChannels.Nodup

namespace WatchInv

variable {s s' : WatchState}

theorem initial (h : r.Ok) : WatchInv (.initial r) where
  ok := h
  view v hv := (some.inj hv).symm
  sweeping := nofun
  fresh := nofun
  unique := nofun
  place := nofun
  watching key c hc := by
    have hnone : c ∉ (∅ : ChannelSet) := notMem_empty c
    exact absurd hc hnone
  closedFresh := nofun
  nodup := nodup_nil

section

variable (h : WatchInv s)

include h

theorem publish {next : RegistryFile} {invalidated : String} (hok : next.Ok)
    (hrevoked : invalidated ≠ "" → next.Revoked invalidated) :
    WatchInv (s.publish next invalidated) := by
  refine ⟨hok, fun v hv => (some.inj hv).symm, fun key hkey => ?_, h.fresh, h.unique,
    h.place, h.watching, h.closedFresh, h.nodup⟩
  simp only [WatchState.publish] at hkey
  split_ifs at hkey with hnonempty
  cases hkey
  exact hrevoked hnonempty

/-- The watchers of a key are closed, each once, and leave the table. -/
theorem invalidateLocked (key : String) : WatchInv (s.invalidateLocked key) := by
  have hother : ∀ key' c, c ∈ (s.invalidateLocked key).channels key' →
      key' ≠ key ∧ c ∈ s.channels key' := by
    intro key' c hc
    rw [WatchState.channels, WatchState.invalidateLocked, WatchState.channels_erase] at hc
    split at hc
    · exact absurd hc (notMem_empty c)
    · next hne => exact ⟨hne, hc⟩
  refine ⟨h.ok, h.view, h.sweeping, h.fresh, h.unique, ?_, ?_, ?_, ?_⟩
  · intro c p hp
    rcases h.place c p hp with hclosed | hcancelled | hwatching
    · exact .inl (mem_append_left _ hclosed)
    · exact .inr (.inl hcancelled)
    by_cases hkey : p.keyID = key
    · exact .inl (mem_append_right _ (mem_keys.mp (hkey ▸ hwatching)))
    refine .inr (.inr ?_)
    rw [WatchState.channels, WatchState.invalidateLocked, WatchState.channels_erase, if_neg hkey]
    exact hwatching
  · intro key' c hc
    obtain ⟨hne, hold⟩ := hother key' c hc
    obtain ⟨⟨p, hp, hpkey⟩, hopen⟩ := h.watching key' c hold
    refine ⟨⟨p, hp, hpkey⟩, fun hclosed => ?_⟩
    rcases mem_append.mp hclosed with hbefore | hnow
    · exact hopen hbefore
    obtain ⟨⟨p', hp', hpkey'⟩, -⟩ := h.watching key c (mem_keys.mpr hnow)
    rw [h.unique c p p' hp hp', hpkey'] at hpkey
    exact hne hpkey.symm
  · intro c hc
    rcases mem_append.mp hc with hbefore | hnow
    · exact h.closedFresh c hbefore
    · obtain ⟨⟨p, hp, -⟩, -⟩ := h.watching key c (mem_keys.mpr hnow)
      exact h.fresh (c, p) hp
  · refine nodup_append.mpr ⟨h.nodup, (s.channels key).keys_nodup, fun a ha b hb => ?_⟩
    rintro rfl
    exact (h.watching key a (mem_keys.mpr hb)).2 ha

theorem invalidateAll (keys : List String) : WatchInv (keys.foldl .invalidateLocked s) := by
  induction keys generalizing s with
  | nil => exact h
  | cons key rest ih => exact ih (h.invalidateLocked key)

theorem register (p : Principal) : WatchInv (s.register p) := by
  have hchannels : ∀ key c, c ∈ (s.register p).channels key ↔
      (key = p.keyID ∧ c = s.nextChannel) ∨ c ∈ s.channels key := by
    intro key c
    rw [WatchState.channels, WatchState.register, WatchState.channels_insert]
    by_cases hkey : key = p.keyID
    · rw [if_pos hkey, mem_insert, hkey]
      simp
    · simp [hkey, WatchState.channels]
  have hregistered : ∀ c q, (c, q) ∈ (s.register p).registered ↔
      (c, q) ∈ s.registered ∨ (c = s.nextChannel ∧ q = p) := by
    simp [WatchState.register]
  refine ⟨h.ok, h.view, h.sweeping, ?_, ?_, ?_, ?_, ?_, h.nodup⟩
  · rintro ⟨c, q⟩ hq
    rcases (hregistered c q).mp hq with hold | ⟨rfl, -⟩
    · exact Nat.lt_succ_of_lt (h.fresh _ hold)
    · exact Nat.lt_succ_self _
  · intro c q q' hq hq'
    rcases (hregistered c q).mp hq with hold | ⟨rfl, rfl⟩ <;>
      rcases (hregistered _ q').mp hq' with hold' | ⟨hc, rfl⟩
    · exact h.unique c q q' hold hold'
    · exact absurd (h.fresh _ hold) (by simp [hc])
    · exact absurd (h.fresh _ hold') (by simp)
    · rfl
  · intro c q hq
    rw [hchannels]
    rcases (hregistered c q).mp hq with hold | ⟨rfl, rfl⟩
    · rcases h.place c q hold with hclosed | hcancelled | hwatching
      · exact .inl hclosed
      · exact .inr (.inl hcancelled)
      · exact .inr (.inr (.inr hwatching))
    · exact .inr (.inr (.inl ⟨rfl, rfl⟩))
  · intro key c hc
    rcases (hchannels key c).mp hc with ⟨rfl, rfl⟩ | hold
    · refine ⟨⟨p, (hregistered _ _).mpr (.inr ⟨rfl, rfl⟩), rfl⟩, fun hclosed => ?_⟩
      exact Nat.lt_irrefl _ (h.closedFresh _ hclosed)
    · obtain ⟨⟨q, hq, hkey⟩, hopen⟩ := h.watching key c hold
      exact ⟨⟨q, (hregistered _ _).mpr (.inl hq), hkey⟩, hopen⟩
  · intro c hc
    exact Nat.lt_succ_of_lt (h.closedFresh c hc)

theorem cancel (channel : Nat) (p : Principal) : WatchInv (s.cancel channel p) := by
  refine ⟨h.ok, h.view, h.sweeping, h.fresh, h.unique, ?_, ?_, h.closedFresh, h.nodup⟩
  · intro c q hq
    rcases h.place c q hq with hclosed | hcancelled | hwatching
    · exact .inl hclosed
    · exact .inr (.inl (mem_append_left _ hcancelled))
    by_cases hc : c = channel
    · exact .inr (.inl (mem_append_right _ (mem_singleton.mpr hc)))
    · exact .inr (.inr (WatchState.mem_channels_cancel.mpr ⟨hwatching, fun hboth => hc hboth.2⟩))
  · intro key c hc
    exact h.watching key c (WatchState.mem_channels_cancel.mp hc).1

theorem step {e : WatchEvent} (hstep : s.step fits e = some s') : WatchInv s' := by
  have hdone : WatchInv { s with loading := none } := { h with }
  revert hstep
  fun_cases s.step fits e with
  | case1 op env hidle _ hcom =>
    rintro ⟨⟩
    refine h.publish (h.ok.call fits op env hidle.2.1 hidle.2.2) fun hnonempty => ?_
    exact call_revokes_invalidatedKey h.ok hidle.2.2 hcom hnonempty
  | case2 =>
    rintro ⟨⟩
    exact h
  | case5 key =>
    rintro ⟨⟩
    have hswept := h.invalidateLocked key
    exact { hswept with sweeping := nofun }
  | case8 =>
    rintro ⟨⟩
    exact { h with }
  | case10 | case12 =>
    rintro ⟨⟩
    exact hdone
  | case11 now p view hloading =>
    rintro ⟨⟩
    exact h.register p
  | case14 channel =>
    intro hstep
    obtain ⟨found, -, rfl⟩ := map_eq_some_iff.mp hstep
    exact h.cancel channel found.2
  | case15 =>
    rintro ⟨⟩
    exact ⟨h.ok, nofun, nofun, h.fresh, h.unique, h.place, h.watching, h.closedFresh, h.nodup⟩
  | case17 =>
    rintro ⟨⟩
    have hall := h.invalidateAll s.watchers.keys
    exact { hall with sweeping := nofun }
  | _ => rintro ⟨⟩

end

end WatchInv

/-! ## After the invalidation -/

/-- The key is revoked for every registration to come, also for one under way. -/
def WatchState.Dead (s : WatchState) (key : String) : Prop :=
  s.authority.registry.Revoked key ∧
    ∀ p v, s.loading = some (p, some v) → v.Revoked key

/-- **Step.** A dead key stays dead and gets no more watchers. -/
theorem WatchState.Dead.step {s s' : WatchState} {e : WatchEvent}
    {key : String} (h : s.Dead key) (hinv : WatchInv s) (hstep : s.step fits e = some s') :
    s'.Dead key ∧ ∀ c p, (c, p) ∈ s'.registered → p.keyID = key → (c, p) ∈ s.registered := by
  revert hstep
  fun_cases s.step fits e with
  | case1 op env hidle =>
    have hcall : s.authority.step fits (.call op env) =
        some { s.authority with registry := (op.call fits s.authority env).registry } := by
      rw [FileAuthority.step, if_pos hidle.2]
    rintro ⟨⟩
    exact ⟨⟨h.1.retains (FileAuthority.step_retains hinv.ok hcall), h.2⟩, fun _ _ hp _ => hp⟩
  | case2 | case5 | case15 =>
    rintro ⟨⟩
    exact ⟨h, fun _ _ hp _ => hp⟩
  | case8 p =>
    rintro ⟨⟩
    refine ⟨⟨h.1, fun p' v hv => ?_⟩, fun _ _ hp _ => hp⟩
    cases hview : s.view with
    | none =>
      simp only [hview] at hv
      cases hv
    | some current =>
      simp only [hview] at hv
      cases hv
      rw [hinv.view _ hview]
      exact h.1
  | case10 | case12 =>
    rintro ⟨⟩
    exact ⟨⟨h.1, fun _ _ hload => by cases hload⟩, fun _ _ hp _ => hp⟩
  | case11 now p view hloading hvalid =>
    rintro ⟨⟩
    refine ⟨⟨h.1, fun _ _ hload => by cases hload⟩, fun c q hq hkey => ?_⟩
    rcases mem_append.mp hq with hold | hnew
    · exact hold
    · obtain ⟨-, rfl⟩ := Prod.mk.injEq _ _ _ _ ▸ mem_singleton.mp hnew
      exact absurd hvalid (RegistryFile.Revoked.not_valid (hkey ▸ h.2 q view hloading) now)
  | case14 channel =>
    intro hstep
    obtain ⟨_, -, rfl⟩ := map_eq_some_iff.mp hstep
    exact ⟨h, fun _ _ hp _ => hp⟩
  | case17 =>
    rintro ⟨⟩
    have hkept : ∀ (keys : List String) (t : WatchState),
        (keys.foldl .invalidateLocked t).authority = t.authority ∧
        (keys.foldl .invalidateLocked t).loading = t.loading ∧
        (keys.foldl .invalidateLocked t).registered = t.registered := by
      intro keys
      induction keys with
      | nil => exact fun t => ⟨rfl, rfl, rfl⟩
      | cons k rest ih => exact fun t => ih (t.invalidateLocked k)
    obtain ⟨hauth, hload, hreg⟩ := hkept s.watchers.keys s
    refine ⟨⟨?_, fun p v hv => ?_⟩, fun c p hp _ => ?_⟩
    · simpa only [hauth] using h.1
    · exact h.2 p v (by simpa only [hload] using hv)
    · simpa only [hreg] using hp
  | _ => rintro ⟨⟩

/-- A write that ends a key is followed by the sweep of its watchers. -/
theorem write_sweeps_ended {s s' : WatchState} (h : WatchInv s) {op : RegistryOp} {env : CallEnv}
    (hstep : s.step fits (.write op env) = some s') {key : String} {rec : CredentialRecord}
    (hl : s.authority.registry.records.lookup key = some rec) (hlive : rec.revokedAt = 0)
    (hrev : s'.authority.registry.Revoked key) : s'.writer = .sweeping key := by
  simp only [WatchState.step] at hstep
  split_ifs at hstep with hidle hcom
  · cases hstep
    have hkey := invalidatedKey_of_revoked h.ok hidle.2.2 hl hlive hrev
    rw [WatchState.publish, hkey, if_neg (h.ok.keyed _ _ hl).2]
  · cases hstep
    obtain ⟨rec', hl', hne⟩ := hrev
    cases hl.symm.trans hl'
    exact absurd hlive hne

/-- **Invalidation watchers.** In every run of writers, registrations, cancellations and `Close` on
    a well-formed registry no channel is closed twice. When an invalidating publication returns,
    every watcher registered for its key has its channel closed, unless it was cancelled, and from
    then on no watcher is registered for that key. -/
theorem invalidation_reaches_watchers (fits : RegistryFile → Bool) (r : RegistryFile) (hok : r.Ok)
    (events : List WatchEvent) (s : WatchState)
    (hrun : exec (WatchState.step fits) (.initial r) events = some s) :
    s.closedChannels.Nodup ∧
      ∀ (key : String) (s' : WatchState), s.writer = .sweeping key →
        s.step fits .sweep = some s' →
        (∀ c p, (c, p) ∈ s'.registered → p.keyID = key → c ∈ s'.closedChannels ∨ c ∈ s'.cancelled) ∧
        ∀ (later : List WatchEvent) (t : WatchState),
          exec (WatchState.step fits) s' later = some t →
          ∀ c p, (c, p) ∈ t.registered → p.keyID = key → (c, p) ∈ s'.registered := by
  have hinv := exec_invariant WatchInv (fun _ _ _ h hstep => h.step hstep) (.initial hok) hrun
  refine ⟨hinv.nodup, fun key s' hwriter hsweep => ?_⟩
  have hinv' := hinv.step hsweep
  obtain ⟨hloading, hs'⟩ : s.loading = none ∧
      s' = { s.invalidateLocked key with writer := .idle } := by
    simp only [WatchState.step, hwriter] at hsweep
    obtain ⟨hloading, hs'⟩ := ite_none_left_eq_some.mp hsweep
    exact ⟨by simpa using hloading, (some.inj hs').symm⟩
  refine ⟨fun c p hp hkey => ?_, fun later t hlater => ?_⟩
  · rcases hinv'.place c p hp with hclosed | hcancelled | hwatching
    · exact .inl hclosed
    · exact .inr hcancelled
    rw [hs', WatchState.channels, WatchState.invalidateLocked, hkey,
      WatchState.channels_erase, if_pos rfl] at hwatching
    exact absurd hwatching (notMem_empty c)
  · -- The sweep found nobody loading, so the key is dead from here on.
    have hdead : s'.Dead key := by
      subst hs'
      refine ⟨hinv.sweeping key hwriter, fun p v hv => ?_⟩
      rw [WatchState.invalidateLocked, hloading] at hv
      cases hv
    have hall := exec_invariant (fun t => WatchInv t ∧ t.Dead key ∧
        ∀ c p, (c, p) ∈ t.registered → p.keyID = key → (c, p) ∈ s'.registered)
      (fun u e u' ⟨hu, hd, hreg⟩ hstep =>
        have hnext := hd.step hu hstep
        ⟨hu.step hstep, hnext.1, fun c p hp hkey => hreg c p (hnext.2 c p hp hkey) hkey⟩)
      ⟨hinv', hdead, fun _ _ hp _ => hp⟩ hlater
    exact hall.2.2

theorem issueReading_pos : (0 : Int) < 1000 := by decide

theorem revokeReading_pos : (0 : Int) < 2000 := by decide

/-- A host key is issued and watched twice; while a third registration has loaded the registry, the
    key is revoked. One watcher cancels. -/
def watchedRun : List WatchEvent :=
  let host : Principal := ⟨"aa", "h", .host, 1⟩
  [.write (.ensure .host "h") (.clean ⟨1000, issueReading_pos⟩ "aa"), .watch host, .admits 1500,
    .watch host, .admits 1600, .watch host,
    .write (.revoke .host "h") (.clean ⟨2000, revokeReading_pos⟩ "bb"), .admits 1700, .cancel 0]

theorem invalidation_reaches_watchers_watchedRun :
    ∃ s s', exec (WatchState.step fun _ => true) (.initial .empty) watchedRun = some s ∧
      s.step (fun _ => true) .sweep = some s' ∧ s'.closedChannels = [2, 1] ∧
      (∀ c p, (c, p) ∈ s'.registered → p.keyID = "aa" →
        c ∈ s'.closedChannels ∨ c ∈ s'.cancelled) := by
  simp only [exists_and_left]
  refine reaches_imp (P := fun s => s.writer = .sweeping "aa" ∧
    ∃ s', s.step (fun _ => true) .sweep = some s' ∧ s'.closedChannels = [2, 1])
    (by decide +kernel) ?_
  rintro s hs ⟨hwriter, s', hs', hclosed⟩
  obtain ⟨-, hreach⟩ := invalidation_reaches_watchers (fun _ => true) .empty ok_empty
    watchedRun s hs
  exact ⟨s', hs', hclosed, (hreach "aa" s' hwriter hs').1⟩

end AgentMultiplexer.Access
