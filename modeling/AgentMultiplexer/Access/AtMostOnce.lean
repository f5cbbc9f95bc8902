import AgentMultiplexer.Theory.Transition
import AgentMultiplexer.Access.Replay

set_option autoImplicit false

/-! # At most one acceptance per request

The ledger refuses a key it holds, so a request can be accepted twice only if its entry left the
ledger in between. Entries leave in the capacity prune of `acceptReplay` alone, and the prune uses
the pruning call's clock: a call that read the clock before the entry expired may still take its
decision after another call's prune dropped the entry, and is then accepted a second time.

The first part proves that this is the only way: a run in which no decision is taken on a key an
earlier prune dropped accepts every request at most once. The second part is the race itself. -/

namespace AgentMultiplexer.Access

open AList List Transition LedgerState GoMap

/-! ## The replay decision -/

section Decision

variable {entries : ReplayEntries} {records now : Int} {entry : ReplayRecord}

theorem insertReplay_cases (entries : ReplayEntries) (records : Int) (entry : ReplayRecord) :
    insertReplay entries records entry = (entries, some .capacity) ∨
      insertReplay entries records entry = (entries.insert (replayKey entry) entry, none) := by
  unfold insertReplay
  split
  · exact .inl rfl
  · exact .inr rfl

/-- What the decision can do: refuse a known key, refuse for lack of room, or insert; in the last
    two cases the ledger may have been pruned first. -/
theorem acceptReplay_cases (entries : ReplayEntries) (records now : Int) (entry : ReplayRecord) :
    (replayKey entry ∈ entries ∧ acceptReplay entries records entry now = (entries, some .replay)) ∨
    (replayKey entry ∉ entries ∧ ∃ base, (base = entries ∨ base = unexpired entries now) ∧
      (acceptReplay entries records entry now = (base, some .capacity) ∨
       acceptReplay entries records entry now = (base.insert (replayKey entry) entry, none))) := by
  unfold acceptReplay
  by_cases hmem : replayKey entry ∈ entries
  · exact .inl ⟨hmem, by rw [if_pos hmem]⟩
  refine .inr ⟨hmem, ?_⟩
  rw [if_neg hmem]
  split
  · exact ⟨_, .inr rfl, insertReplay_cases _ records entry⟩
  · exact ⟨_, .inl rfl, insertReplay_cases _ records entry⟩

/-- A key that is in the ledger before the decision is in it afterwards, or was dropped. -/
theorem mem_or_dropped {after : ReplayEntries} {k : String} (h : k ∈ entries) :
    k ∈ after ∨ k ∈ droppedKeys entries after := by
  by_cases ha : k ∈ after
  · exact .inl ha
  · refine .inr (mem_filter.mpr ⟨AList.mem_keys.mp h, ?_⟩)
    exact decide_eq_true ha

theorem droppedKeys_eq_nil {after : ReplayEntries} (h : ∀ k ∈ entries, k ∈ after) :
    droppedKeys entries after = [] := by
  refine filter_eq_nil_iff.mpr fun k hk => ?_
  simpa using h k (AList.mem_keys.mpr hk)

end Decision

/-! ## The invariant -/

/-- The call's record is in the ledger, or was when the call returned. -/
def LedgerState.Holds (s : LedgerState) (i : Nat) (rec : ReplayRecord) : Prop :=
  s.calls i = .inserted rec ∨ s.calls i = .accepted rec

/-- No two calls hold one key, and a held key is in the ledger or was pruned. -/
structure LedgerState.Unique (s : LedgerState) : Prop where
  one : ∀ i j r r', s.Holds i r → s.Holds j r' → replayKey r = replayKey r' → i = j
  kept : ∀ i r, s.Holds i r → replayKey r ∈ s.entries ∨ replayKey r ∈ s.pruned

/-- The decision of this step, if it is one, is not on a key that an earlier prune dropped. -/
def DecidesUnpruned (crypto : Crypto) (s : LedgerState) : LedgerEvent → Prop
  | .decide i => ∀ req now, s.calls i = .checked req now →
      replayKey (replayRecordOf crypto req) ∉ s.pruned
  | _ => True

namespace LedgerState

variable {crypto : Crypto} {s t : LedgerState}

theorem Fresh.unique (h : s.Fresh) : s.Unique where
  one i _ r _ hi := by
    rcases hi with hi | hi <;> exact absurd ((h.1 i).symm.trans hi) (by simp)
  kept i r hi := by
    rcases hi with hi | hi <;> exact absurd ((h.1 i).symm.trans hi) (by simp)

theorem setCall_holds {i j : Nat} {c : CallState} {rec : ReplayRecord} :
    (s.setCall i c).Holds j rec ↔
      if j = i then c = .inserted rec ∨ c = .accepted rec else s.Holds j rec := by
  unfold Holds setCall
  by_cases hj : j = i
  · subst hj
    simp
  · simp [hj]

theorem Unique.fail (h : s.Unique) (i : Nat) {c : CallState}
    (hc : ∀ rec, c ≠ .inserted rec ∧ c ≠ .accepted rec) : (s.setCall i c).Unique where
  one j k r r' hj hk hkey := by
    rw [setCall_holds] at hj hk
    split at hj
    · exact absurd hj (not_or.mpr (hc r))
    split at hk
    · exact absurd hk (not_or.mpr (hc r'))
    · exact h.one j k r r' hj hk hkey
  kept j r hj := by
    rw [setCall_holds] at hj
    split at hj
    · exact absurd hj (not_or.mpr (hc r))
    · exact h.kept j r hj

/-- The replay decision keeps the invariant when its key was not pruned before: an inserted key was
    in no call's hands. -/
theorem Unique.decided (h : s.Unique) {i : Nat} {req : SignedRequest} {now : Int}
    (hnew : replayKey (replayRecordOf crypto req) ∉ s.pruned) :
    (s.decided crypto i req now).Unique := by
  unfold LedgerState.decided
  cases checkCredential crypto s.closed s.registry now req with
  | error err => exact h.fail i (by simp)
  | ok rec =>
    dsimp only
    have hkept : ∀ (after : ReplayEntries) j r, s.Holds j r →
        replayKey r ∈ after ∨ replayKey r ∈ s.pruned ++ droppedKeys s.entries after := by
      intro after j r hj
      rw [mem_append]
      rcases h.kept j r hj with hin | hpruned
      · exact (mem_or_dropped hin).imp_right .inr
      · exact .inr (.inl hpruned)
    have hfailed : ∀ err after, { s.setCall i (.failed err) with
        entries := after, pruned := s.pruned ++ droppedKeys s.entries after }.Unique := by
      intro err after
      refine ⟨(h.fail i (c := .failed err) (by simp)).one, fun j r hj => hkept _ j r ?_⟩
      have := setCall_holds.mp hj
      split at this
      · simp at this
      · exact this
    rcases acceptReplay_cases s.entries s.records now (replayRecordOf crypto req) with
      ⟨-, heq⟩ | ⟨habsent, base, -, heq | heq⟩
    · -- a known key: nothing is inserted
      rw [heq]
      exact hfailed .replay _
    · -- no room: the prune is recorded
      rw [heq]
      exact hfailed .capacity _
    · -- inserted: nobody else holds the key
      rw [heq]
      have hfree : ∀ j r, s.Holds j r → replayKey r ≠ replayKey (replayRecordOf crypto req) := by
        intro j r hj hkey
        rcases h.kept j r hj with hin | hpruned
        · exact habsent (hkey ▸ hin)
        · exact hnew (hkey ▸ hpruned)
      have hholds : ∀ j r, (s.setCall i (.inserted (replayRecordOf crypto req))).Holds j r →
          (j = i ∧ r = replayRecordOf crypto req) ∨ (j ≠ i ∧ s.Holds j r) := by
        intro j r hj
        have := setCall_holds.mp hj
        split at this
        · next hji => exact .inl ⟨hji, by simpa [eq_comm] using this⟩
        · next hji => exact .inr ⟨hji, this⟩
      refine ⟨fun j k r r' hj hk hkey => ?_, fun j r hj => ?_⟩
      · rcases hholds j r hj with ⟨hji, hr⟩ | ⟨-, hj⟩
        · rcases hholds k r' hk with ⟨hki, -⟩ | ⟨-, hk⟩
          · exact hji.trans hki.symm
          · exact absurd (hkey.symm.trans (congrArg replayKey hr)) (hfree k r' hk)
        · rcases hholds k r' hk with ⟨-, hr'⟩ | ⟨-, hk⟩
          · exact absurd (hkey.trans (congrArg replayKey hr')) (hfree j r hj)
          · exact h.one j k r r' hj hk hkey
      · rcases hholds j r hj with ⟨-, rfl⟩ | ⟨-, hj⟩
        · exact .inl (mem_insert _ |>.mpr (.inl rfl))
        · exact hkept _ j r hj

theorem Unique.append (h : s.Unique) {i : Nat} {rec : ReplayRecord}
    (hcall : s.calls i = .inserted rec) : (s.setCall i (.accepted rec)).Unique := by
  have hholds : ∀ j r, (s.setCall i (.accepted rec)).Holds j r → s.Holds j r := by
    intro j r hj
    have := setCall_holds.mp hj
    split at this
    · next hji =>
      obtain rfl : rec = r := by simpa using this
      exact .inl (hji ▸ hcall)
    · exact this
  exact ⟨fun j k r r' hj hk => h.one j k r r' (hholds j r hj) (hholds k r' hk),
    fun j r hj => h.kept j r (hholds j r hj)⟩

theorem Unique.step {e : LedgerEvent} (h : s.Unique) (hcond : DecidesUnpruned crypto s e)
    (hstep : s.step crypto e = some t) : t.Unique := by
  revert hstep
  fun_cases s.step crypto e with
  | case1 | case2 | case3 | case12 | case15 | case16 =>
    rintro ⟨⟩
    exact ⟨h.one, h.kept⟩
  | case4 i | case5 i | case10 i =>
    rintro ⟨⟩
    exact h.fail i (by simp)
  | case7 i req now hcall =>
    rintro ⟨⟩
    exact h.decided (hcond req now hcall)
  | case9 i rec hcall =>
    rintro ⟨⟩
    exact ⟨(h.append hcall).one, (h.append hcall).kept⟩
  | _ => rintro ⟨⟩

end LedgerState

/-! ## Single steps, and a small authority to run -/

variable {entry : ReplayRecord}

section Steps

variable {crypto : Crypto} {s : LedgerState} {i : Nat} {req : SignedRequest}

theorem step_begin (hidle : s.calls i = .idle)
    (hcheck : checkEnvelope s.bootID s.clock req = none) :
    s.step crypto (.begin i req) = some (s.setCall i (.checked req s.clock)) := by
  simp only [step, hidle, hcheck]

theorem step_decide {now : Int} {after : ReplayEntries} {outcome : Option AccessError}
    {rec : CredentialRecord} (hcall : s.calls i = .checked req now)
    (hcred : checkCredential crypto s.closed s.registry now req = .ok rec)
    (haccept : acceptReplay s.entries s.records (replayRecordOf crypto req) now =
      (after, outcome)) :
    s.step crypto (.decide i) = some {
      s.setCall i (outcome.elim (.inserted (replayRecordOf crypto req)) .failed) with
        entries := after
        pruned := s.pruned ++ droppedKeys s.entries after } := by
  simp only [step, hcall, decided, hcred, haccept]
  cases outcome <;> rfl

theorem step_append (hcall : s.calls i = .inserted entry) : s.step crypto (.append i true) =
      some { s.setCall i (.accepted entry) with records := s.records + 1 } := by
  simp only [step, hcall, if_true]

end Steps

theorem acceptReplay_room {entries : ReplayEntries} {records now : Int}
    (hkey : replayKey entry ∉ entries) (hlen : entries.len < maxReplayEntries)
    (hrecords : records < replayJournalLimit) :
    acceptReplay entries records entry now = (entries.insert (replayKey entry) entry, none) := by
  have hroom : ¬ (maxReplayEntries ≤ entries.len ∨ (replayJournalLimit : Int) ≤ records) := by
    omega
  rw [acceptReplay, if_neg hkey, if_neg (by omega), insertReplay, if_neg hroom]

/-- Request ids: 32 binary digits, which are hexadecimal ones too. -/
def raceID (n : Nat) : String :=
  String.ofList ((List.range 32).map fun i => if n.testBit i then '1' else '0')

/-- A request issued at `issued` milliseconds with the full lifetime. -/
def raceRequest (n : Nat) (issued : Int) : SignedRequest where
  protocol := 1
  bootID := "4f1d"
  keyID := "00112233445566778899aabbccddeeff"
  generation := 1
  requestID := raceID n
  issuedAt := issued
  expiresAt := issued + 30000
  body := [123]
  signature := ""

/-- Every signature verifies. -/
def raceCrypto : Crypto := ⟨fun _ _ => true, fun _ => "digest"⟩

def raceRecord (n : Nat) (issued : Int) : ReplayRecord :=
  replayRecordOf raceCrypto (raceRequest n issued)

def raceRegistry : RegistryFile where
  current := AList.insert (currentKey .session "s1") "00112233445566778899aabbccddeeff" ∅
  records := AList.insert "00112233445566778899aabbccddeeff"
    ⟨"00112233445566778899aabbccddeeff", "s1", .session, 1, "pub", 0, 10 ^ 12, 0⟩ ∅

theorem raceID_inj {m n : Nat} (hm : m < 2 ^ 32) (hn : n < 2 ^ 32) (h : raceID m = raceID n) :
    m = n := by
  have hlist := String.ofList_injective h
  apply Nat.eq_of_testBit_eq
  intro i
  by_cases hi : i < 32
  · have hbit := congrArg (fun l => l.getD i 'x') hlist
    simp only [getD_eq_getElem?_getD, getElem?_map, getElem?_range hi,
      Option.map_some, Option.getD_some] at hbit
    cases hbm : m.testBit i <;> cases hbn : n.testBit i <;> simp_all
  · have hpow : 2 ^ 32 ≤ 2 ^ i := Nat.pow_le_pow_right (by decide) (by omega)
    rw [Nat.testBit_lt_two_pow (by omega), Nat.testBit_lt_two_pow (by omega)]

theorem raceKey_inj {m n : Nat} {a b : Int} (hm : m < 2 ^ 32) (hn : n < 2 ^ 32)
    (h : replayKey (raceRecord m a) = replayKey (raceRecord n b)) : m = n := by
  refine raceID_inj hm hn (String.toList_inj.mp ?_)
  have := congrArg String.toList h
  simpa [replayKey, raceRecord, replayRecordOf, raceRequest, String.toList_append] using this

/-- A ledger that holds the requests `0..n-1`, all issued at `issued`. -/
def raceLedger (issued : Int) : Nat → ReplayEntries
  | 0 => ∅
  | n + 1 => (raceLedger issued n).insert (replayKey (raceRecord n issued)) (raceRecord n issued)

/-- The ledger holds nothing else, and the recovered entries count as they should. -/
theorem raceLedger_spec (issued : Int) (n : Nat) (hn : n < 2 ^ 32) : (raceLedger issued n).len = n ∧
      (∀ m, n ≤ m → m < 2 ^ 32 → replayKey (raceRecord m issued) ∉ raceLedger issued n) ∧
      ∀ e ∈ (raceLedger issued n).entries, e.2.expiresAt = issued + 30000 := by
  induction n with
  | zero => exact ⟨rfl, fun _ _ _ => notMem_empty _, by simp [raceLedger]⟩
  | succ n ih =>
    obtain ⟨hlen, hfree, hexp⟩ := ih (by omega)
    have habsent := hfree n le_rfl (by omega)
    have hentries := entries_insert_of_notMem (b := raceRecord n issued) habsent
    refine ⟨?_, ?_, ?_⟩
    · rw [raceLedger, len, hentries, length_cons, ← len, hlen]
    · intro m hm hbound hmem
      rcases (mem_insert _).mp hmem with heq | hmem
      · have := raceKey_inj hbound (by omega) heq
        omega
      · exact hfree m (by omega) hbound hmem
    · rw [raceLedger, hentries]
      exact forall_mem_cons.mpr ⟨rfl, hexp⟩

theorem acceptReplay_pruned {entries : ReplayEntries} {records now : Int}
    (hkey : replayKey entry ∉ entries) (hlen : maxReplayEntries ≤ entries.len)
    (hrecords : records < replayJournalLimit)
    (hexpired : ∀ e ∈ entries.entries, e.2.expiresAt < replayCutoff now) :
    acceptReplay entries records entry now = (AList.insert (replayKey entry) entry ∅, none) := by
  have hempty : unexpired entries now = ∅ := by
    apply AList.ext
    rw [unexpired, GoMap.filter]
    refine filter_eq_nil_iff.mpr fun e he => ?_
    have := hexpired e he
    simp only [decide_eq_true_eq]
    omega
  have hroom : ¬ (maxReplayEntries ≤ len (∅ : ReplayEntries) ∨
      (replayJournalLimit : Int) ≤ records) := by
    have : len (∅ : ReplayEntries) < maxReplayEntries := by decide
    omega
  rw [acceptReplay, if_neg hkey, if_pos hlen, hempty, insertReplay, if_neg hroom]

/-- A boot at one thousand seconds that recovered 4095 entries, one less than the ledger may hold. -/
def raceStart : LedgerState where
  bootID := "4f1d"
  clock := 1000 * 10 ^ 9
  registry := raceRegistry
  closed := false
  entries := raceLedger 1000000 4095
  records := 0
  rotated := none
  calls := fun _ => .idle
  pruned := []

/-- The ledger of `raceStart` with one more request in it, which makes it full. -/
def fullLedger : ReplayEntries :=
  (raceLedger 1000000 4095).insert (replayKey (raceRecord 4095 1000000)) (raceRecord 4095 1000000)

/-- The ledger after the prune: it holds the pruning request only. -/
def prunedLedger : ReplayEntries :=
  AList.insert (replayKey (raceRecord 5000 1036000)) (raceRecord 5000 1036000) ∅

theorem acceptReplay_fills (records now : Int) (hrecords : records < replayJournalLimit) :
    acceptReplay raceStart.entries records (raceRecord 4095 1000000) now = (fullLedger, none) := by
  obtain ⟨hlen, hfree, -⟩ := raceLedger_spec 1000000 4095 (by decide)
  refine acceptReplay_room (hfree 4095 le_rfl (by decide)) ?_ hrecords
  rw [raceStart, hlen]
  decide

/-- Thirty-six seconds later every entry of the full ledger has expired. -/
theorem acceptReplay_prunes (records : Int) (hrecords : records < replayJournalLimit) :
    acceptReplay fullLedger records (raceRecord 5000 1036000) (1036 * 10 ^ 9) =
      (prunedLedger, none) := by
  obtain ⟨hlen, hfree, hexp⟩ := raceLedger_spec 1000000 4095 (by decide)
  have hentries := entries_insert_of_notMem (b := raceRecord 4095 1000000)
    (hfree 4095 le_rfl (by decide))
  refine acceptReplay_pruned (fun hmem => ?_) ?_ hrecords fun e he => ?_
  · rcases (mem_insert _).mp hmem with heq | hmem
    · exact absurd (raceKey_inj (by decide) (by decide) heq) (by decide)
    · exact hfree 5000 (by decide) (by decide) hmem
  · rw [fullLedger, len, hentries, length_cons, ← len, hlen]
    decide
  · rw [fullLedger, hentries] at he
    have heq : e.2.expiresAt = 1000000 + 30000 := by
      rcases mem_cons.mp he with rfl | he
      · rfl
      · exact hexp e he
    rw [heq]
    decide

theorem notMem_prunedLedger : replayKey (raceRecord 4095 1000000) ∉ prunedLedger := by
  intro hmem
  rcases (mem_insert _).mp hmem with heq | hmem
  · exact absurd (raceKey_inj (by decide) (by decide) heq) (by decide)
  · exact notMem_empty _ hmem

/-- The second copy of a request is refused; later another request prunes the full ledger while a
    compaction runs. -/
def quietEvents : List LedgerEvent :=
  [.begin 0 (raceRequest 4095 1000000), .begin 1 (raceRequest 4095 1000000), .decide 0,
   .append 0 true, .decide 1, .rotate, .tick (1036 * 10 ^ 9), .begin 2 (raceRequest 5000 1036000),
   .decide 2, .append 2 true, .compacted true]

/-! ## Runs -/

/-- **At most one acceptance.** In a run of interleaved `Verify` calls, prunes and compactions in
    which no replay decision is taken on a key that an earlier capacity prune dropped, two calls
    that returned success for one key id, generation and request id are the same call. -/
theorem accepted_at_most_once (crypto : Crypto) {s t : LedgerState} (events : List LedgerEvent)
    (hfresh : s.Fresh) (hcond : Along (LedgerState.step crypto) (DecidesUnpruned crypto) s events)
    (hrun : exec (LedgerState.step crypto) s events = some t) (i j : Nat) (r r' : ReplayRecord)
    (hi : t.calls i = .accepted r) (hj : t.calls j = .accepted r') (hkey : r.keyID = r'.keyID)
    (hgen : r.generation = r'.generation) (hid : r.requestID = r'.requestID) : i = j := by
  have hunique : t.Unique :=
    exec_invariant_along (DecidesUnpruned crypto) LedgerState.Unique
      (fun _ _ _ hs hP hstep => hs.step hP hstep) hfresh.unique hcond hrun
  refine hunique.one i j r r' (.inr hi) (.inr hj) ?_
  rw [replayKey, replayKey, hkey, hgen, hid]

theorem accepted_at_most_once_quiet :
    ∃ t, exec (LedgerState.step raceCrypto) raceStart quietEvents = some t ∧
      t.calls 0 = .accepted (raceRecord 4095 1000000) ∧ t.calls 1 = .failed .replay ∧
      replayKey (raceRecord 4095 1000000) ∈ t.pruned ∧
      ∀ j r, t.calls j = .accepted r → (raceRecord 4095 1000000).keyID = r.keyID →
        (raceRecord 4095 1000000).generation = r.generation →
        (raceRecord 4095 1000000).requestID = r.requestID → 0 = j := by
  have hmem : replayKey (raceRecord 4095 1000000) ∈ fullLedger := (mem_insert _).mpr (.inl rfl)
  have hrefused : acceptReplay fullLedger 1 (raceRecord 4095 1000000) (1000 * 10 ^ 9) =
      (fullLedger, some .replay) := by
    rw [acceptReplay, if_pos hmem]
  have hfills := acceptReplay_fills 0 (1000 * 10 ^ 9) (by decide)
  have hprunes := acceptReplay_prunes 1 (by decide)
  -- no key is dropped before the prune
  have hfirst : ∀ k, k ∉ raceStart.pruned ++ droppedKeys raceStart.entries fullLedger := by
    have hnil : droppedKeys raceStart.entries fullLedger = [] :=
      droppedKeys_eq_nil fun _ h => (mem_insert _).mpr (.inr h)
    rw [hnil]
    exact fun _ => not_mem_nil
  have hsecond : ∀ k, k ∉ (raceStart.pruned ++ droppedKeys raceStart.entries fullLedger) ++
      droppedKeys fullLedger fullLedger := by
    intro k
    rw [droppedKeys_eq_nil fun _ h => h, append_nil]
    exact hfirst k
  have hrun : exec (step raceCrypto) raceStart quietEvents = some _ :=
    exec_cons_eq_some.mpr ⟨_, step_begin rfl (by decide),
    exec_cons_eq_some.mpr ⟨_, step_begin rfl (by decide),
    exec_cons_eq_some.mpr ⟨_, step_decide rfl rfl hfills,
    exec_cons_eq_some.mpr ⟨_, step_append rfl,
    exec_cons_eq_some.mpr ⟨_, step_decide rfl rfl hrefused,
    exec_cons_eq_some.mpr ⟨_, rfl,
    exec_cons_eq_some.mpr ⟨_, rfl,
    exec_cons_eq_some.mpr ⟨_, step_begin rfl (by decide),
    exec_cons_eq_some.mpr ⟨_, step_decide rfl rfl hprunes,
    exec_cons_eq_some.mpr ⟨_, step_append rfl,
    exec_cons_eq_some.mpr ⟨_, rfl, rfl⟩⟩⟩⟩⟩⟩⟩⟩⟩⟩⟩
  have hcond : Along (step raceCrypto) (DecidesUnpruned raceCrypto) raceStart quietEvents :=
    .cons trivial (step_begin rfl (by decide)) <|
    .cons trivial (step_begin rfl (by decide)) <|
    .cons (fun _ _ _ => not_mem_nil) (step_decide rfl rfl hfills) <|
    .cons trivial (step_append rfl) <|
    .cons (fun _ _ _ => hfirst _) (step_decide rfl rfl hrefused) <|
    .cons trivial rfl <|
    .cons trivial rfl <|
    .cons trivial (step_begin rfl (by decide)) <|
    .cons (fun _ _ _ => hsecond _) (step_decide rfl rfl hprunes) <|
    .cons trivial (step_append rfl) <|
    .cons trivial rfl trivial
  refine ⟨_, hrun, rfl, rfl, ?_, fun j r hj hkey hgen hid =>
    accepted_at_most_once raceCrypto quietEvents ⟨fun _ => rfl, rfl⟩ hcond hrun 0 j
      (raceRecord 4095 1000000) r rfl hj hkey hgen hid⟩
  exact mem_append_right _ ((mem_or_dropped hmem).resolve_left notMem_prunedLedger)

/-! ## The race

Two copies of one request pass the envelope checks at the same instant. The first is accepted and
fills the ledger. Thirty-six seconds later another request finds the ledger full and prunes it: at
its clock the first request has expired. The second copy then takes its decision with the clock
reading it took before the expiry, finds no entry, and is accepted as well. -/

def raceEvents : List LedgerEvent :=
  [.begin 0 (raceRequest 4095 1000000), .begin 1 (raceRequest 4095 1000000), .decide 0,
   .append 0 true, .tick (1036 * 10 ^ 9), .begin 2 (raceRequest 5000 1036000), .decide 2,
   .append 2 true, .decide 1, .append 1 true]

/-- **A request accepted twice.** Calls 0 and 1 carry the same request and both return success. -/
theorem accepted_twice :
    ∃ t, raceStart.Fresh ∧ exec (LedgerState.step raceCrypto) raceStart raceEvents = some t ∧
      t.calls 0 = .accepted (raceRecord 4095 1000000) ∧
      t.calls 1 = .accepted (raceRecord 4095 1000000) := by
  have hgone : acceptReplay prunedLedger 2 (raceRecord 4095 1000000) (1000 * 10 ^ 9) = (_, none) :=
    acceptReplay_room notMem_prunedLedger (by decide) (by decide)
  exact ⟨_, ⟨fun _ => rfl, rfl⟩,
    exec_cons_eq_some.mpr ⟨_, step_begin rfl (by decide),
    exec_cons_eq_some.mpr ⟨_, step_begin rfl (by decide),
    exec_cons_eq_some.mpr ⟨_, step_decide rfl rfl
      (acceptReplay_fills 0 (1000 * 10 ^ 9) (by decide)),
    exec_cons_eq_some.mpr ⟨_, step_append rfl,
    exec_cons_eq_some.mpr ⟨_, rfl,
    exec_cons_eq_some.mpr ⟨_, step_begin rfl (by decide),
    exec_cons_eq_some.mpr ⟨_, step_decide rfl rfl (acceptReplay_prunes 1 (by decide)),
    exec_cons_eq_some.mpr ⟨_, step_append rfl,
    exec_cons_eq_some.mpr ⟨_, step_decide rfl rfl hgone,
    exec_cons_eq_some.mpr ⟨_, step_append rfl, rfl⟩⟩⟩⟩⟩⟩⟩⟩⟩⟩, rfl, rfl⟩

end AgentMultiplexer.Access
