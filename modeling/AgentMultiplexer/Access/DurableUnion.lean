import AgentMultiplexer.Access.DurableInvariant

set_option autoImplicit false

/-! # No accepted request is forgotten

At every instant of a run, recovery from the disk as it stands succeeds and finds every request that
was accepted and has not expired, as long as no append follows a partial record in its file. The
code keeps appending to a file after a failed write, and the last section shows what recovery makes
of such a file. -/

namespace AgentMultiplexer.Access

open Transition DurableState

/-! ## Calls that have not started

The condition on a decision speaks of all calls. In a concrete run those that never start are idle
throughout, so the others are all that has to be looked at. -/

section Idle

variable {crypto : Crypto} {j : Nat}

theorem LedgerState.step_idle {s t : LedgerState} {e : LedgerEvent} (hj : ∀ req, e ≠ .begin j req)
    (hidle : s.calls j = .idle) (hstep : s.step crypto e = some t) : t.calls j = .idle := by
  have hother : ∀ {i c}, s.calls i ≠ .idle → (s.setCall i c).calls j = .idle := by
    intro i c hi
    have hji : j ≠ i := fun h => hi (h ▸ hidle)
    simpa [setCall, hji] using hidle
  revert hstep
  fun_cases s.step crypto e with
  | case1 | case2 | case3 | case12 | case15 | case16 =>
    rintro ⟨⟩
    exact hidle
  | case4 i req | case5 i req =>
    rintro ⟨⟩
    have hji : j ≠ i := fun h => hj req (h ▸ rfl)
    simpa [setCall, hji] using hidle
  | case7 i req now hcall =>
    rintro ⟨⟩
    unfold decided
    split <;> exact hother (by simp [hcall])
  | case9 i rec hcall | case10 i _ rec hcall =>
    rintro ⟨⟩
    exact hother (by simp [hcall])
  | _ => rintro ⟨⟩


theorem DurableState.ledgerStep_idle {s t : DurableState} {e : LedgerEvent}
    (hj : ∀ req, e ≠ .begin j req) (hidle : s.ledger.calls j = .idle)
    (hstep : s.ledgerStep crypto e = some t) : t.ledger.calls j = .idle := by
  obtain ⟨ledger, hledger, rfl⟩ := Option.map_eq_some_iff.mp hstep
  exact LedgerState.step_idle hj hidle hledger

theorem DurableState.step_idle {s t : DurableState} {e : DurableEvent}
    (hj : ∀ req, e ≠ .begin j req) (hidle : s.ledger.calls j = .idle)
    (hstep : s.step crypto e = some t) : t.ledger.calls j = .idle := by
  revert hstep
  fun_cases s.step crypto e with
  | case4 i req => exact ledgerStep_idle (fun req' h => hj req' (by cases h; rfl)) hidle
  | case1 | case2 | case7 => exact ledgerStep_idle (by simp) hidle
  | case9 i outcome r =>
    unfold appendStep
    split
    · exact ledgerStep_idle (by simp) hidle
    · exact ledgerStep_idle (by simp) hidle
  | case11 failed =>
    fun_cases rotateStep crypto s failed with
    | case1 => exact ledgerStep_idle (by simp) hidle
    | case2 =>
      rintro ⟨⟩
      exact hidle
    | case3 => rintro ⟨⟩
  | case13 outcome =>
    unfold commitStep
    split
    · cases outcome with
      | ok =>
        rintro ⟨⟩
        exact hidle
      | notCommitted | committedWithError => exact ledgerStep_idle (by simp) hidle
    · cases outcome <;> (rintro ⟨⟩; exact hidle)
    · rintro ⟨⟩
  | case14 ok =>
    fun_cases removeStep crypto s ok with
    | case2 => exact ledgerStep_idle (by simp) hidle
    | case1 | case4 | case5 =>
      rintro ⟨⟩
      exact hidle
    | _ => rintro ⟨⟩
  | case15 =>
    fun_cases finishStep crypto s with
    | case1 => exact ledgerStep_idle (by simp) hidle
    | _ => rintro ⟨⟩
  | case16 =>
    rintro ⟨⟩
    exact hidle
  | case17 images content =>
    simp only [crashStep, Option.bind_eq_bind, Option.bind_eq_some_iff]
    grind
  | case18 =>
    rintro ⟨⟩
    unfold loadStep
    split <;> exact hidle
  | case20 failed =>
    cases failed with
    | none =>
      rintro ⟨⟩
      rfl
    | some created =>
      simp only [createStep]
      grind
  | _ => rintro ⟨⟩

/-- A test for `AppendsClean` when only the first `count` calls are ever used and every append goes
    to an empty file. -/
def cleanTest (crypto : Crypto) (count : Nat) (s : DurableState) : DurableEvent → Bool
  | .begin i _ => i < count
  | .append i _ =>
    match s.ledger.calls i with
    | .inserted r => s.files.all fun f =>
        f.gen ≠ s.gen || f.shard ≠ shardFor r.keyID ||
          (f.data.isEmpty && f.records.isEmpty && f.synced == 0 &&
            (recordBytes r).length ≤ maxJournalBytes)
    | _ => true
  | .decide i =>
    match s.ledger.calls i with
    | .checked req _ => (List.range count).all fun j =>
        match s.ledger.calls j with
        | .inserted r => replayKey r ≠ replayKey (replayRecordOf crypto req)
        | _ => true
    | _ => true
  | .tick now => s.ledger.clock ≤ now
  | _ => true

theorem appendsClean_of_cleanTest {count : Nat} {s : DurableState} {e : DurableEvent}
    (hidle : ∀ j, count ≤ j → s.ledger.calls j = .idle) (h : cleanTest crypto count s e = true) :
    AppendsClean crypto s e := by
  cases e with
  | append i outcome =>
    intro r hcall f hf hgen hshard
    simp only [cleanTest, hcall, List.all_eq_true] at h
    have hclean := h f hf
    simp only [hgen, hshard, ne_eq, not_true, decide_false, Bool.false_or, Bool.and_eq_true,
      List.isEmpty_iff, beq_iff_eq, decide_eq_true_eq] at hclean
    obtain ⟨⟨⟨hdata, hrecords⟩, hsynced⟩, hsize⟩ := hclean
    refine ⟨?_, fun _ _ => ?_, ?_⟩
    · rw [JournalFile.Whole, hdata, hrecords]
      rfl
    · rw [hsynced, hdata]
      rfl
    · simpa [hdata] using hsize
  | decide i =>
    intro req now hcall
    refine .inr fun j r hj => ?_
    have hlt : j < count := by
      by_contra hge
      rw [hidle j (by omega)] at hj
      cases hj
    simp only [cleanTest, hcall, List.all_eq_true, List.mem_range] at h
    simpa [hj] using h j hlt
  | tick now =>
    show s.ledger.clock ≤ now
    exact of_decide_eq_true h
  | _ => trivial

/-- The test, passed along a run from an empty state root, establishes the condition there. -/
theorem along_of_cleanTest (count : Nat) {clock : Int} {events : List DurableEvent}
    (h : check (step crypto) (cleanTest crypto count) (.blank clock) events = true) :
    Along (step crypto) (AppendsClean crypto) (.blank clock) events := by
  refine .of_invariant (fun s => ∀ j, count ≤ j → s.ledger.calls j = .idle)
    (fun s e => appendsClean_of_cleanTest) (fun s e t hidle htest hstep j hj => ?_)
    (fun _ _ => rfl) (.of_check (fun _ _ hq => hq) h)
  refine step_idle (fun req he => ?_) (hidle j hj) hstep
  subst he
  have hlt : j < count := of_decide_eq_true htest
  omega

end Idle

/-- Every signature verifies, and every body has the same digest. -/
def plainCrypto : Crypto :=
  ⟨fun _ _ => true, fun _ => "e3b0c44298fc1c149afbf4c8996fb92427ae41e4649b934ca495991b7852b855"⟩

def plainRecord (n : Nat) : ReplayRecord := replayRecordOf plainCrypto (raceRequest n 1000000)

/-- A compaction in which nothing fails. -/
def compactionEvents : List DurableEvent :=
  [.rotate none, .commit .ok] ++ List.replicate replayShards (.remove true) ++ [.finish]

/-- A daemon accepts a request and compacts; the append of the next request fails after five bytes;
    after another compaction a third request is accepted, and the system crashes. -/
def plainEvents : List DurableEvent :=
  [.load, .create none "4f1d" raceRegistry, .begin 0 (raceRequest 7 1000000), .decide 0,
   .append 0 .ok] ++ compactionEvents ++
  [.begin 1 (raceRequest 9 1000000), .decide 1, .append 1 (.failed 5)] ++ compactionEvents ++
  [.tick (1001 * 10 ^ 9), .begin 2 (raceRequest 11 1000000), .decide 2, .append 2 .ok,
   .crash ((List.range replayShards).map fun shard =>
     if shard = shardFor (plainRecord 11).keyID then ((recordBytes (plainRecord 11)).length, 0)
     else (0, 0)) 0]

/-- **The durable union.** In a run from an empty state root whose steps all meet `AppendsClean`,
    recovery from the disk as it stands succeeds in every state reached, after a crash or not, and
    finds every request whose `Verify` returned success and that has not expired. -/
theorem recovery_finds_accepted (crypto : Crypto)
    (hdigest : ∀ body, validHexID (crypto.bodyDigest body) 32) (clock : Int)
    (events : List DurableEvent) {s : DurableState}
    (hcond : Along (DurableState.step crypto) (AppendsClean crypto) (.blank clock) events)
    (hrun : exec (DurableState.step crypto) (.blank clock) events = some s) :
    ∃ entries, s.recovered = .ok entries ∧
      ∀ r ∈ s.acked, replayCutoff s.ledger.clock ≤ r.expiresAt →
        entries.lookup (replayKey r) = some r := by
  have hinv : s.Inv :=
    exec_invariant_along (AppendsClean crypto) DurableState.Inv
      (fun _ _ _ hs hP hstep => hs.step hdigest hP hstep) (inv_blank clock) hcond hrun
  obtain ⟨entries, hentries, hlookup⟩ := hinv.disk.recovered
  exact ⟨entries, hentries, fun r hr hlive => hlookup r ⟨hr, hlive⟩⟩

theorem recovery_finds_accepted_plain :
    ∃ s, exec (DurableState.step plainCrypto) (.blank (1000 * 10 ^ 9)) plainEvents = some s ∧
      s.acked = [plainRecord 7, plainRecord 11] ∧
      ∃ entries, s.recovered = .ok entries ∧
        ∀ r ∈ s.acked, entries.lookup (replayKey r) = some r := by
  have hrun : ∃ s, exec (step plainCrypto) (.blank (1000 * 10 ^ 9)) plainEvents = some s ∧
      s.acked = [plainRecord 7, plainRecord 11] ∧ s.ledger.clock = 1001 * 10 ^ 9 := by
    decide +kernel
  obtain ⟨s, hs, hacked, hclock⟩ := hrun
  have hdigest : ∀ body, validHexID (plainCrypto.bodyDigest body) 32 := by
    intro body
    show validHexID "e3b0c44298fc1c149afbf4c8996fb92427ae41e4649b934ca495991b7852b855" 32
    decide
  obtain ⟨entries, hentries, hlookup⟩ :=
    recovery_finds_accepted plainCrypto hdigest (1000 * 10 ^ 9) plainEvents
      (along_of_cleanTest 3 (by decide +kernel)) hs
  refine ⟨s, hs, hacked, entries, hentries, fun r hr => hlookup r hr ?_⟩
  rw [hacked] at hr
  rw [hclock]
  revert r
  decide

/-! ## An append after a partial one

A write that fails after one byte leaves a zero byte in its file, and the next append to the same
shard puts a whole record behind it. The file now starts with a length of zero that is not the start
of an empty end, so recovery refuses it, and with it the accepted request. -/

/-- Two requests of one key; the append of the first one fails after one byte. -/
def strayEvents : List DurableEvent :=
  [.load, .create none "4f1d" raceRegistry, .begin 0 (raceRequest 7 1000000), .decide 0,
   .append 0 (.failed 1), .begin 1 (raceRequest 9 1000000), .decide 1, .append 1 .ok]

def DurableState.recoveryError (s : DurableState) : Option JournalError :=
  match s.recovered with
  | .ok _ => none
  | .error err => some err

theorem DurableState.recovered_of_recoveryError {s : DurableState} {err : JournalError}
    (h : s.recoveryError = some err) : s.recovered = .error err := by
  unfold recoveryError at h
  split at h
  next => cases h
  next heq =>
  cases h
  exact heq

/-- **An accepted request that no recovery finds.** The request of call 1 was accepted and has not
    expired, and the disk can no longer be read. -/
theorem accepted_then_unreadable :
    ∃ s, exec (DurableState.step plainCrypto) (.blank (1000 * 10 ^ 9)) strayEvents = some s ∧
      s.acked = [plainRecord 9] ∧
      replayCutoff s.ledger.clock ≤ (plainRecord 9).expiresAt ∧
      s.recovered = .error (.corrupt 0) := by
  have hrun : (exec (step plainCrypto) (.blank (1000 * 10 ^ 9)) strayEvents).map
      (fun s => (s.acked, s.ledger.clock, s.recoveryError)) =
        some ([plainRecord 9], 1000 * 10 ^ 9, some (.corrupt 0)) := by decide +kernel
  obtain ⟨s, hs, heq⟩ := Option.map_eq_some_iff.mp hrun
  simp only [Prod.mk.injEq] at heq
  obtain ⟨hacked, hclock, herr⟩ := heq
  refine ⟨s, hs, hacked, ?_, recovered_of_recoveryError herr⟩
  rw [hclock]
  decide

end AgentMultiplexer.Access
