import AgentMultiplexer.Access.RegistryRuns
import AgentMultiplexer.Theory.Json
import AgentMultiplexer.Theory.Totals
import Mathlib.Data.List.Sort

set_option autoImplicit false

/-! # A full registry can still be revoked from

`stateFits` bounds the length of `registry.json`, and the next registry is committed only if it
fits. A revocation always does: the entry of `Current` that goes is longer than the revocation time
that comes. -/

namespace AgentMultiplexer.Access

open GoMap Json List Transition FileAuthority RegistryFile

/-! ## The file -/

def maxStateBytes : Nat := 4 * 2 ^ 20

/-- An object with written values. Every member but the first comes after a comma. -/
def object (fields : List (String × List UInt8)) : List UInt8 :=
  0x7B :: ((fields.flatMap fun f => 0x2C :: (writeString f.1 ++ 0x3A :: f.2)).tail ++ [0x7D])

/-- A map with string keys: `encoding/json` sorts them. -/
def writeMap {β : Type} (write : β → List UInt8) (m : GoMap String β) : List UInt8 :=
  object ((m.entries.insertionSort (·.1 ≤ ·.1)).map fun e => (e.1, write e.2))

/-- A record; a `revokedAt` of zero is omitted. -/
def writeRecord (rec : CredentialRecord) : List UInt8 :=
  object ([("keyId", writeString rec.keyID), ("subjectId", writeString rec.subjectID),
    ("kind", writeString rec.kind.text), ("generation", writeNat rec.generation),
    ("publicKey", writeString rec.publicKey), ("issuedAt", writeInt rec.issuedAt),
    ("notAfter", writeInt rec.notAfter)] ++
    if rec.revokedAt = 0 then [] else [("revokedAt", writeInt rec.revokedAt)])

def marshal (r : RegistryFile) : List UInt8 :=
  object [("version", writeNat 1), ("current", writeMap writeString r.current),
    ("records", writeMap writeRecord r.records)]

def stateFits (r : RegistryFile) : Bool := (marshal r).length + 1 ≤ maxStateBytes

/-! ## Its length -/

theorem length_object (fields : List (String × List UInt8)) : (object fields).length =
    (fields.map fun f => (writeString f.1).length + (f.2.length + 1) + 1).sum - 1 + 2 := by
  simp only [object, length_cons, length_append, length_tail, length_flatMap, length_nil]

/-- The order of the entries does not matter. -/
theorem length_writeMap {β : Type} {m : GoMap String β} {l : List (Sigma fun _ : String => β)}
    (write : β → List UInt8) (h : m.entries.Perm l) : (writeMap write m).length =
      (l.map fun e => (writeString e.1).length + ((write e.2).length + 1) + 1).sum - 1 + 2 := by
  rw [writeMap, length_object, List.map_map]
  exact congrArg (· - 1 + 2) (((perm_insertionSort _ _).trans h).map _).sum_eq

theorem length_le_writeString (s : String) : s.length + 2 ≤ (writeString s).length := by
  have hchar : ∀ c, 1 ≤ (writeChar c).length := by
    intro c
    unfold writeChar
    split_ifs <;> simp [writeUnicode, Nat.one_le_iff_ne_zero, c.utf8Size_pos.ne']
  have hsum := length_le_sum_of_one_le (s.toList.map fun c => (writeChar c).length)
    (by simpa using fun c _ => hchar c)
  rw [length_map, String.length_toList] at hsum
  simp only [writeString, length_cons, length_append, length_flatMap, length_nil]
  omega

variable {fits : RegistryFile → Bool} {a : FileAuthority} {r : RegistryFile} {kind : SubjectKind}
  {id : String} {rec : CredentialRecord} {now : ClockReading}

/-- A time in milliseconds is an `int64`. -/
theorem length_writeRecord_revoke (hnow : now < (2 ^ 63 : Int)) :
    (writeRecord (rec.revoke now)).length ≤ (writeRecord rec).length + 33 := by
  have hpos := now.2
  have htime := length_writeInt_le (i := now) (by omega) hnow
  have hname : (writeString "revokedAt").length = 11 := by decide +kernel
  unfold CredentialRecord.revoke
  split
  · next hzero =>
    simp only [writeRecord, length_object, map_append, sum_append, hzero, hpos.ne', if_true,
      if_false, map_cons, map_nil, sum_cons, sum_nil, hname]
    omega
  · omega

/-- **A revocation makes the file shorter.** -/
theorem length_marshal_revoke (hcur : r.current.lookup (currentKey kind id) = some rec.keyID)
    (hkey : rec.keyID.length = 32) (hl : r.records.lookup rec.keyID = some rec)
    (hnow : now < (2 ^ 63 : Int)) :
    (marshal (r.revokeRecord kind id rec now)).length < (marshal r).length := by
  have hindexed := length_writeMap writeString (perm_cons_erase hcur)
  have hremoved := length_writeMap (m := r.current.erase (currentKey kind id)) writeString (.refl _)
  have hbefore := length_writeMap writeRecord (perm_cons_erase hl)
  have hinsert : (r.records.insert rec.keyID (rec.revoke now)).entries.Perm
      (⟨rec.keyID, rec.revoke now⟩ :: (r.records.erase rec.keyID).entries) := .refl _
  have hafter := length_writeMap writeRecord hinsert
  have hrecord : (writeRecord (rec.revoke now)).length ≤ _ := length_writeRecord_revoke hnow
  have hkeyID := length_le_writeString rec.keyID
  simp only [map_cons, sum_cons] at hindexed hbefore hafter
  simp only [marshal, revokeRecord, length_object, map_cons, map_nil, sum_cons, sum_nil]
  omega

/-! ## Runs -/

theorem call_fits (h : fits a.registry = true) (op : RegistryOp) (env : CallEnv) :
    fits (op.call fits a env).registry = true := by
  have hcommit : ∀ next, fits (commitRegistry fits a.registry next env.commit).registry = true := by
    intro next
    unfold commitRegistry
    split
    · exact h
    next hfits =>
    cases env.commit with
    | notCommitted => exact h
    | committedWithError | ok => simpa using hfits
  unfold RegistryOp.call
  split
  · exact h
  split
  · exact h
  -- every branch leaves the registry or commits
  cases op <;> dsimp only [ensureLocked, rotateLocked, regrantLocked, renewExpiredLocked,
    revokeCurrentLocked, issueLocked, revokeLocked] <;> repeat' split
  all_goals first | exact h | exact hcommit _

/-- The key id a call draws: 16 bytes in hexadecimal. -/
def AuthorityEvent.drawsKeyID : AuthorityEvent → Bool
  | .call _ env => env.keyID.length = 32
  | .close => true

/-- What the runs keep: the registry fits, and its current keys have the length of a key id. -/
structure Bounded (a : FileAuthority) : Prop where
  ok : a.registry.Ok
  fits : stateFits a.registry = true
  keys : ∀ x k, a.registry.current.lookup x = some k → k.length = 32

theorem Bounded.step {b : FileAuthority} {e : AuthorityEvent} (h : Bounded a)
    (hkey : e.drawsKeyID = true) (hstep : a.step stateFits e = some b) : Bounded b := by
  have hok := step_ok h.ok hstep
  cases e with
  | call op env =>
    obtain ⟨-, -, rfl⟩ := step_call hstep
    refine ⟨hok, call_fits h.fits op env, fun x k hk => ?_⟩
    rcases call_effect stateFits h.ok op env with
      ⟨-, hreg⟩ | ⟨-, -, -, hreg⟩ | ⟨-, -, -, -, -, -, hreg⟩ <;> rw [hreg] at hk
    · exact h.keys x k hk
    · rcases lookup_insert_eq_some.mp hk with ⟨-, rfl⟩ | ⟨-, hk⟩
      · exact of_decide_eq_true hkey
      · exact h.keys x k hk
    · exact h.keys x k (lookup_of_erase hk)
  | close =>
    cases hstep
    exact { h with }

theorem Bounded.revoke (h : Bounded a) (hnow : now < (2 ^ 63 : Int))
    (hcur : a.registry.currentID kind id = rec.keyID)
    (hl : a.registry.records.lookup rec.keyID = some rec) :
    stateFits (a.registry.revokeRecord kind id rec now) = true := by
  have hlookup := lookup_of_get hcur (h.ok.keyed _ _ hl).2
  have hshort := length_marshal_revoke hlookup (h.keys _ _ hlookup) hl hnow
  have hold := of_decide_eq_true h.fits
  exact decide_eq_true (by omega)

/-- **Revocations are never refused for capacity.** After every run under the bound, whoever the
    subjects are and whatever the clock and the random source say, the registry that revoking a
    current credential produces fits. -/
theorem revocation_fits (events : List AuthorityEvent) (hkeys : ∀ e ∈ events, e.drawsKeyID = true)
    (h : exec (FileAuthority.step stateFits) .init events = some a) (kind : SubjectKind)
    (id : String) (env : CallEnv) (hnow : env.now < (2 ^ 63 : Int)) :
    (∀ rec, a.registry.currentID kind id = rec.keyID →
      a.registry.records.lookup rec.keyID = some rec →
      stateFits (a.registry.revokeRecord kind id rec env.now) = true) ∧
    ∀ expectedKeyID,
      (revokeLocked stateFits a.registry kind id expectedKeyID env).err ≠ some .capacity := by
  have hinv : Bounded a := exec_invariant_along (fun _ e => e.drawsKeyID = true) Bounded
    (fun _ _ _ => .step) ⟨ok_empty, by decide +kernel, by simp [init, empty]⟩ (.of_forall hkeys) h
  refine ⟨fun rec => hinv.revoke hnow, fun expectedKeyID hfull => ?_⟩
  unfold revokeLocked at hfull
  dsimp only at hfull
  split at hfull
  · split at hfull <;> cases hfull
  split at hfull
  · cases hfull
  split at hfull
  · cases hfull
  next rec hl =>
  split at hfull
  · cases hfull
  have hkey := (hinv.ok.keyed _ _ hl).1
  rw [← hkey] at hl hfull
  have hnext : stateFits ⟨_, _⟩ = true := hinv.revoke hnow hkey.symm hl
  simp only [commitRegistry, hnext, Bool.not_true, Bool.false_eq_true, if_false] at hfull
  cases hcommit : env.commit <;> simp only [hcommit] at hfull <;> cases hfull

/-- Three subjects: one is rotated, one is revoked and granted again, one keeps its first key. -/
def severalKeys : List AuthorityEvent :=
  let now : ClockReading := ⟨1, Int.one_pos⟩
  [.call (.ensure .session "s1") (.clean now "00112233445566778899aabbccddeeff"),
    .call (.rotate .session "s1") (.clean now "10112233445566778899aabbccddeeff"),
    .call (.ensure .session "s2") (.clean now "20112233445566778899aabbccddeeff"),
    .call (.revoke .session "s2") (.clean now "30112233445566778899aabbccddeeff"),
    .call (.regrant .session "s2" 1) (.clean now "40112233445566778899aabbccddeeff"),
    .call (.ensure .host "h1") (.clean now "50112233445566778899aabbccddeeff")]

theorem revocation_fits_severalKeys :
    ∃ a, exec (FileAuthority.step stateFits) .init severalKeys = some a ∧
      a.registry.records.len = 5 ∧
      a.registry.currentID .session "s2" = "40112233445566778899aabbccddeeff" ∧
      (revokeLocked stateFits a.registry .session "s2" ""
        (.clean ⟨1, Int.one_pos⟩ "")).err ≠ some .capacity := by
  refine reaches_imp (P := fun a => a.registry.records.len = 5 ∧
    a.registry.currentID .session "s2" = "40112233445566778899aabbccddeeff") (by decide +kernel)
    fun a ha hcur => ⟨hcur.1, hcur.2, ?_⟩
  exact (revocation_fits severalKeys (by decide) ha .session "s2" _ (by decide)).2 ""

end AgentMultiplexer.Access
