import AgentMultiplexer.SessionRpc.Settlement

set_option autoImplicit false

/-! # Admission as a promise

Before an operation is dispatched, `reserveResponse` looks for room for the largest response and
`receiptCapacity` for a free place in the pending table. The look holds nothing: what holds the room
is the lease of the daemon's response budget, if the server was given one. With leases an admitted
operation finds its room; without them two lanes can be admitted to the same last place. The number
of pending receipts stays within its limit in either case, because each of them has its response on
disk. -/

namespace AgentMultiplexer.SessionRpc.Receipts

open GoMap Access Transition Function GoMap

variable {responses : GoMap String ResponseFile} {leases : GoMap String Lease}
  {phase : Lane → Phase} {s s' : State} {e : Event} {l l' : Lane} {id id' : String} {p : Phase}
  {b b' : Budget}

/-! ## Pending receipts are bounded -/

/-- The directory is within its limit, unless it was found beyond it and nothing was added. -/
def FilesBound (s : State) : Prop :=
  s.responses.len ≤ maxResponseFiles ∨
    s.pending.entries = [] ∧ ∀ l id principal held, s.phase l ≠ .registering id principal held

theorem len_erase_le {m : GoMap String ResponseFile} : len (m.erase id) ≤ m.len := by
  rw [len_eq_total, len_eq_total]
  exact total_le_total fun k x hx => ⟨x, lookup_of_erase hx, le_rfl⟩

theorem FilesBound.shrink (h : FilesBound s) (hlen : s'.responses.len ≤ s.responses.len)
    (hpending : s.pending.entries = [] → s'.pending.entries = [])
    (hphase : ∀ l id principal held, s'.phase l = .registering id principal held →
      s.phase l = .registering id principal held) : FilesBound s' := by
  rcases h with hlow | ⟨hnil, hnone⟩
  · exact .inl (hlen.trans hlow)
  · exact .inr ⟨hpending hnil, fun l id principal held heq => hnone l id principal held
      (hphase l id principal held heq)⟩

theorem FilesBound.enter (h : FilesBound s) (hlen : s'.responses.len ≤ s.responses.len)
    (hpending : s.pending.entries = [] → s'.pending.entries = [])
    (hphase : s'.phase = update s.phase l p)
    (hp : ∀ id principal held, p ≠ .registering id principal held) : FilesBound s' := by
  refine h.shrink hlen hpending fun l' id principal held heq => ?_
  rw [hphase] at heq
  rcases update_lane s.phase l p l' with ⟨_, hup⟩ | ⟨_, hup⟩
  · exact absurd (hup ▸ heq) (hp id principal held)
  · exact hup ▸ heq

theorem len_insert_le {size : Nat} {f : ResponseFile}
    (hroom : s.ensureResponseCapacity size = true) (hnew : s.responses.lookup id = none) :
    len (s.responses.insert id f) ≤ maxResponseFiles := by
  simp only [State.ensureResponseCapacity, Bool.and_eq_true, decide_eq_true_eq] at hroom
  have hlen := hroom.1
  rw [len_eq_total] at hlen ⊢
  rw [total_insert_of_lookup_none hnew]
  omega

theorem FilesBound.step (h : FilesBound s) (hstep : Section s e s') : FilesBound s' := by
  cases hstep with
  | walk l _ hq hw => exact h.enter le_rfl (fun h => h) rfl (by cases hw <;> nofun)
  | leased | dispatched | persist | freed => exact h.enter le_rfl (fun h => h) rfl nofun
  | unpublished l id | refused l id =>
    exact h.enter (l := l) (p := .ending (some id)) (by simp) (by simp) (by simp) nofun
  | unsynced l id answer size found he _ hq hsize hroom hnew =>
    exact .inl (len_insert_le hroom hnew)
  | published l id answer size _ hq hsize hroom hnew => exact .inl (len_insert_le hroom hnew)
  | register l id principal held digest now _ hq =>
    rcases h with hlow | ⟨_, hnone⟩
    · exact .inl hlow
    · exact absurd hq (hnone l id principal held)
  | readied l id _ hq hentry =>
    refine h.enter le_rfl (fun hnil => ?_) rfl nofun
    have hmem := mem_entries_iff.mpr hentry
    rw [hnil] at hmem
    cases hmem
  | taken l id received reason _ hq ht hentry hheld =>
    refine h.enter le_rfl (fun hnil => ?_) rfl (by cases ht <;> nofun)
    have hmem := mem_entries_iff.mpr hentry
    rw [hnil] at hmem
    cases hmem
  | unlinked => exact h.enter len_erase_le (fun h => h) rfl nofun
  | expire p now hlooks =>
    refine h.shrink le_rfl (fun hnil => ?_) fun _ _ _ _ heq => heq
    simp [State.expire, filter, mapVal, hnil]
  | settle | others | close | slowExit | settlerExit | joinSettler | closeReturn => exact h
  | cleanup => exact h.shrink len_erase_le (fun h => h) fun _ _ _ _ heq => heq
  | swap => exact h.shrink le_rfl (fun _ => rfl) fun _ _ _ _ heq => heq

theorem filesBound_exec {budget : Option Budget} {events : List Event}
    (hrun : exec step (.initial responses budget) events = some s) : FilesBound s :=
  exec_invariant FilesBound (fun _ _ _ h hstep => h.step (step_section hstep))
    (.inr ⟨rfl, fun _ _ _ _ h => by cases h⟩) hrun

/-- Each pending receipt has a response of its own on disk. -/
theorem pending_len_le (h : FilesBound s) (hk : KeepInv s.responses s.pending s.phase) :
    s.pending.len ≤ maxPendingReceipts := by
  rcases h with hlow | ⟨hnil, _⟩
  · refine le_trans ?_ hlow
    rw [len_eq_total, len_eq_total]
    refine total_le_total fun id entry hentry => ?_
    obtain ⟨f, hf, _⟩ := hk.pendingFile id entry hentry
    exact ⟨f, hf, le_rfl⟩
  · simp [len, hnil]

/-! ## Leases -/

/-- The request whose uncommitted lease a lane holds. -/
def Phase.reserves : Phase → Option String
  | .verifying id | .admitting id _ | .dispatching id _ | .publishing id _ => some id
  | .ending lease => lease
  | _ => none

/-- The leases cover what is on disk, and the lanes' reservations beside it: an uncommitted lease
    for the largest response belongs to one lane, a response has a committed one of its size, and
    a lease about to be released has no response any more. While a reservation is held, the leases
    of this mailbox are within the limits. -/
structure LeaseInv (responses : GoMap String ResponseFile) (leases : GoMap String Lease)
    (phase : Lane → Phase) : Prop where
  files : ∀ id f, responses.lookup id = some f →
    ∃ lease, leases.lookup id = some lease ∧ lease.committed = true ∧ f.size ≤ lease.reservedBytes
  reserved : ∀ l id, (phase l).reserves = some id →
    ∃ lease, leases.lookup id = some lease ∧ lease.committed = false ∧
      lease.reservedBytes = maxEnvelopeFileBytes
  apart : ∀ l l' id, (phase l).reserves = some id → (phase l').reserves = some id → l = l'
  freed : ∀ l id, phase l = .freeing id → responses.lookup id = none ∧
    ∃ lease, leases.lookup id = some lease ∧ lease.committed = true
  freedApart : ∀ l l' id, phase l = .freeing id → phase l' = .freeing id → l = l'
  bound : ∀ l id, (phase l).reserves = some id →
    leases.len ≤ maxResponseFiles ∧ leases.total Lease.reservedBytes ≤ maxResponseBytes

/-- A request has one lease, which is open or committed. -/
theorem not_open_of_committed {leases : GoMap String Lease} {lease lease' : Lease}
    (hlease : leases.lookup id = some lease) (hlease' : leases.lookup id = some lease')
    (hopen : lease.committed = false) (hcommitted : lease'.committed = true) : False := by
  rw [hlease] at hlease'
  cases hlease'
  rw [hopen] at hcommitted
  cases hcommitted

/-- **The promise.** A lane that holds a reservation finds room for its response. -/
theorem LeaseInv.room {leases : GoMap String Lease} (h : LeaseInv s.responses leases s.phase)
    (hl : (s.phase l).reserves = some id) {size : Nat} (hsize : size ≤ maxEnvelopeFileBytes) :
    s.ensureResponseCapacity size = true := by
  obtain ⟨lease, hlease, hopen, hbytes⟩ := h.reserved l id hl
  obtain ⟨hcount, htotal⟩ := h.bound l id hl
  -- The responses are covered by the leases other than this one.
  have hcover : ∀ id' f, s.responses.lookup id' = some f →
      ∃ lease', (leases.erase id).lookup id' = some lease' ∧ f.size ≤ lease'.reservedBytes := by
    intro id' f hf
    obtain ⟨lease', hlease', hcommitted, hle⟩ := h.files id' f hf
    have hne : id' ≠ id := by
      rintro rfl
      exact not_open_of_committed hlease hlease' hopen hcommitted
    exact ⟨lease', by rw [lookup_erase_ite, if_neg hne, hlease'], hle⟩
  have hfiles : s.responses.total (fun _ => 1) ≤ total (fun _ => 1) (leases.erase id) :=
    total_le_total fun id' f hf => by
      obtain ⟨lease', hlease', _⟩ := hcover id' f hf
      exact ⟨lease', hlease', le_rfl⟩
  have hsizes : s.responses.total ResponseFile.size ≤
      total Lease.reservedBytes (leases.erase id) := total_le_total hcover
  have hcount' := total_erase_add (f := fun _ => 1) hlease
  have htotal' := total_erase_add (f := Lease.reservedBytes) hlease
  rw [len_eq_total] at hcount
  simp only [State.ensureResponseCapacity, Bool.and_eq_true, decide_eq_true_eq]
  rw [len_eq_total]
  omega

namespace LeaseInv

section

variable (h : LeaseInv responses leases phase)

include h

theorem enter
    (hp : p.reserves = none ∨ p.reserves = (phase l).reserves) (hfree : ∀ id, p ≠ .freeing id) :
    LeaseInv responses leases (update phase l p) := by
  have hres : ∀ l' id, (update phase l p l').reserves = some id →
      (phase l').reserves = some id := by
    refine fun l' id => holds_of_update (·.reserves = some ·) fun id hid => ?_
    rcases hp with hnone | hsame
    · rw [hnone] at hid
      cases hid
    · rw [← hsame, hid]
  have hfreeing : ∀ l' id, update phase l p l' = .freeing id → phase l' = .freeing id :=
    fun l' id => holds_of_update (· = .freeing ·) fun id hid =>
      absurd hid (hfree id)
  exact
    { h with
      reserved := fun l' id hid => h.reserved l' id (hres l' id hid)
      apart := fun l₁ l₂ id h₁ h₂ => h.apart l₁ l₂ id (hres l₁ id h₁) (hres l₂ id h₂)
      freed := fun l' id hid => h.freed l' id (hfreeing l' id hid)
      freedApart := fun l₁ l₂ id h₁ h₂ =>
        h.freedApart l₁ l₂ id (hfreeing l₁ id h₁) (hfreeing l₂ id h₂)
      bound := fun l' id hid => h.bound l' id (hres l' id hid) }

/-- A lane that unlinked a response is about to release its lease. -/
theorem enterFreeing (hfile : responses.lookup id = none)
    (hlease : ∃ lease, leases.lookup id = some lease ∧ lease.committed = true)
    (hothers : ∀ l', phase l' ≠ .freeing id) :
    LeaseInv responses leases (update phase l (.freeing id)) := by
  have hres : ∀ l' id', (update phase l (.freeing id) l').reserves = some id' →
      (phase l').reserves = some id' :=
    fun l' id' => holds_of_update (·.reserves = some ·) (by nofun)
  have hone : ∀ id', Phase.freeing id = .freeing id' → id' = id := by simp [eq_comm]
  refine
    { h with
      reserved := fun l' id' hid => h.reserved l' id' (hres l' id' hid)
      apart := fun l₁ l₂ id' h₁ h₂ => h.apart l₁ l₂ id' (hres l₁ id' h₁) (hres l₂ id' h₂)
      freed := fun l' id' hid => ?_
      freedApart := fun l₁ l₂ id' => apart_update (· = .freeing ·) h.freedApart hone
        fun l' _ => hothers l'
      bound := fun l' id' hid => h.bound l' id' (hres l' id' hid) }
  rcases holds_of_update_one (· = .freeing ·) hone hid with ⟨_, rfl⟩ | ⟨_, hold⟩
  · exact ⟨hfile, hlease⟩
  · exact h.freed l' id' hold

theorem eraseFile : LeaseInv (responses.erase id) leases phase :=
  { h with
    files := fun id' f hf => h.files id' f (lookup_of_erase hf)
    freed := fun l' id' hid => by
      refine ⟨?_, (h.freed l' id' hid).2⟩
      rw [lookup_erase_ite, (h.freed l' id' hid).1, ite_self] }

theorem eraseLease (hfile : responses.lookup id = none)
    (hres : ∀ l, (phase l).reserves ≠ some id) (hfree : ∀ l, phase l ≠ .freeing id) :
    LeaseInv responses (leases.erase id) phase := by
  have hstay : ∀ id', id' ≠ id → (leases.erase id).lookup id' = leases.lookup id' := by
    intro id' hne
    rw [lookup_erase_ite, if_neg hne]
  have hless : ∀ f : Lease → Nat, total f (leases.erase id) ≤ leases.total f := by
    intro f
    exact total_le_total fun k x hx => ⟨x, lookup_of_erase hx, le_rfl⟩
  refine { h with
      files := fun id' f hf => ?_
      reserved := fun l' id' hid => ?_
      freed := fun l' id' hid => ?_
      bound := fun l' id' hid => ?_ }
  · rw [hstay id' (by rintro rfl; rw [hfile] at hf; cases hf)]
    exact h.files id' f hf
  · rw [hstay id' (by rintro rfl; exact hres l' hid)]
    exact h.reserved l' id' hid
  · rw [hstay id' (by rintro rfl; exact hfree l' hid)]
    exact h.freed l' id' hid
  · obtain ⟨hcount, htotal⟩ := h.bound l' id' hid
    rw [len_eq_total] at hcount ⊢
    exact ⟨(hless _).trans hcount, (hless _).trans htotal⟩

end

theorem reserve (h : LeaseInv responses b.leases phase) (hr : b.reserveResponse id = some b') :
    LeaseInv responses b'.leases (update phase l (.verifying id)) := by
  unfold Budget.reserveResponse at hr
  obtain ⟨hnew, hr⟩ := Option.ite_none_left_eq_some.mp hr
  obtain ⟨hroom, hr⟩ := Option.ite_none_left_eq_some.mp hr
  cases hr
  have hnone : b.leases.lookup id = none := by simpa using hnew
  simp only [Budget.files, Budget.bytes, not_or, Nat.not_le, Nat.not_lt] at hroom
  have hstay : ∀ {id' lease}, b.leases.lookup id' = some lease →
      (b.leases.insert id ⟨maxEnvelopeFileBytes, true, false⟩).lookup id' = some lease := by
    intro id' lease hlease
    rw [lookup_insert_ite, if_neg, hlease]
    rintro rfl
    cases hnone.symm.trans hlease
  have hbound : len (b.leases.insert id ⟨maxEnvelopeFileBytes, true, false⟩) ≤
      maxResponseFiles ∧ total Lease.reservedBytes
        (b.leases.insert id ⟨maxEnvelopeFileBytes, true, false⟩) ≤ maxResponseBytes := by
    rw [len_eq_total] at hroom ⊢
    rw [total_insert_of_lookup_none hnone, total_insert_of_lookup_none hnone]
    exact ⟨by omega, by simp only; omega⟩
  have hone : ∀ id', (Phase.verifying id).reserves = some id' → id' = id := by
    simp [Phase.reserves, eq_comm]
  have hfreeing : ∀ l' id', update phase l (.verifying id) l' = .freeing id' →
      phase l' = .freeing id' :=
    fun l' id' => holds_of_update (· = .freeing ·) (by nofun)
  -- A lane that reserved the same id would have its lease in the table.
  have hother : ∀ l', (phase l').reserves ≠ some id := by
    intro l' hid
    obtain ⟨lease, hlease, _⟩ := h.reserved l' id hid
    cases hnone.symm.trans hlease
  refine
    { files := fun id' f hf => ?_
      reserved := fun l' id' hid => ?_
      apart := fun l₁ l₂ id' => apart_update (·.reserves = some ·) h.apart hone
        fun l' _ => hother l'
      freed := fun l' id' hid => ?_
      freedApart := fun l₁ l₂ id' h₁ h₂ =>
        h.freedApart l₁ l₂ id' (hfreeing l₁ id' h₁) (hfreeing l₂ id' h₂)
      bound := fun _ _ _ => hbound }
  · obtain ⟨lease, hlease, hrest⟩ := h.files id' f hf
    exact ⟨lease, hstay hlease, hrest⟩
  · rcases holds_of_update_one (·.reserves = some ·) hone hid with
      ⟨_, rfl⟩ | ⟨_, hold⟩
    · exact ⟨_, AList.lookup_insert _, rfl, rfl⟩
    · obtain ⟨lease, hlease, hrest⟩ := h.reserved l' id' hold
      exact ⟨lease, hstay hlease, hrest⟩
  · obtain ⟨hnofile, lease, hlease, hcommitted⟩ := h.freed l' id' (hfreeing l' id' hid)
    exact ⟨hnofile, lease, hstay hlease, hcommitted⟩

/-- A lease changes in place: it gets no heavier and does not change between committed and not. -/
theorem inPlace {lease lease' : Lease} (h : LeaseInv responses leases phase)
    (hlease : leases.lookup id = some lease) (hcommitted : lease'.committed = lease.committed)
    (hbytes : lease'.reservedBytes = lease.reservedBytes) :
    LeaseInv responses (leases.insert id lease') phase := by
  have hsame : ∀ {id' l}, leases.lookup id' = some l → ∃ l', (leases.insert id lease').lookup id' =
      some l' ∧ l'.committed = l.committed ∧ l'.reservedBytes = l.reservedBytes := by
    intro id' l hl
    rw [lookup_insert_ite]
    split
    next heq =>
      cases hlease.symm.trans (heq ▸ hl)
      exact ⟨_, rfl, hcommitted, hbytes⟩
    next => exact ⟨l, hl, rfl, rfl⟩
  refine { h with
    files := fun id' f hf => ?_
    reserved := fun l id' hid => ?_
    freed := fun l id' hid => ?_
    bound := fun l id' hid => ?_ }
  · obtain ⟨lease, hlease, hcommitted, hle⟩ := h.files id' f hf
    obtain ⟨lease', hlease', hc, hr⟩ := hsame hlease
    exact ⟨lease', hlease', hc.trans hcommitted, hr ▸ hle⟩
  · obtain ⟨lease, hlease, hopen, hbytes⟩ := h.reserved l id' hid
    obtain ⟨lease', hlease', hc, hr⟩ := hsame hlease
    exact ⟨lease', hlease', hc.trans hopen, hr.trans hbytes⟩
  · obtain ⟨hfile, lease, hlease, hcommitted⟩ := h.freed l id' hid
    obtain ⟨lease', hlease', hc, _⟩ := hsame hlease
    exact ⟨hfile, lease', hlease', hc.trans hcommitted⟩
  · have hcount := total_insert_of_lookup (f := fun _ => 1) (v := lease') hlease
    have htotal := total_insert_of_lookup (f := Lease.reservedBytes) (v := lease') hlease
    have hbound := h.bound l id' hid
    rw [len_eq_total] at hbound ⊢
    omega

section

variable (h : LeaseInv responses b.leases phase)

include h

/-- A response is written under the reservation of its lane, and the lease is committed. -/
theorem publish (hl : (phase l).reserves = some id)
    (hnew : responses.lookup id = none) {f : ResponseFile}
    (hsize : f.size ≤ maxEnvelopeFileBytes) (receipt : Bool) (hp : p.reserves = none)
    (hfree : ∀ id, p ≠ .freeing id) :
    LeaseInv (responses.insert id f) (b.commit id f.size receipt).leases (update phase l p) := by
  obtain ⟨lease, hlease, hopen, hbytes⟩ := h.reserved l id hl
  have hleases : (b.commit id f.size receipt).leases =
      b.leases.insert id (lease.commit f.size receipt) := by
    simp [Budget.commit, hlease, hopen]
  have hfits : f.size ≤ (lease.commit f.size receipt).reservedBytes ∧
      (lease.commit f.size receipt).reservedBytes ≤ lease.reservedBytes := by
    simp only [Lease.commit]
    split <;> omega
  have hbase := h.enter (l := l) (.inl hp) hfree
  have hstay : ∀ id', id' ≠ id →
      (b.leases.insert id (lease.commit f.size receipt)).lookup id' = b.leases.lookup id' := by
    intro id' hne
    rw [lookup_insert_ite, if_neg hne]
  have hgone : ∀ l', (update phase l p l').reserves ≠ some id :=
    fun l' => not_holds_update (·.reserves = some ·) h.apart hl (by simp [hp])
  rw [hleases]
  refine { hbase with
      files := fun id' f' hf' => ?_
      reserved := fun l' id' hid => ?_
      freed := fun l' id' hid => ?_
      bound := fun l' id' hid => ?_ }
  · rcases lookup_insert_eq_some.mp hf' with ⟨rfl, rfl⟩ | ⟨hne, hf'⟩
    · exact ⟨_, AList.lookup_insert _, rfl, hfits.1⟩
    · rw [hstay id' hne]
      exact h.files id' f' hf'
  · rw [hstay id' (by rintro rfl; exact hgone l' hid)]
    exact hbase.reserved l' id' hid
  · obtain ⟨hnofile, lease', hlease', hcommitted⟩ := hbase.freed l' id' hid
    have hne : id' ≠ id := by
      rintro rfl
      exact not_open_of_committed hlease hlease' hopen hcommitted
    exact ⟨by rw [lookup_insert_ite, if_neg hne, hnofile], lease',
      (hstay id' hne).trans hlease', hcommitted⟩
  · obtain ⟨hcount, htotal⟩ := hbase.bound l' id' hid
    have hcount' := total_insert_of_lookup (f := fun _ => 1)
      (v := lease.commit f.size receipt) hlease
    have htotal' := total_insert_of_lookup (f := Lease.reservedBytes)
      (v := lease.commit f.size receipt) hlease
    rw [len_eq_total] at hcount ⊢
    omega

theorem releaseReceipt : LeaseInv responses (b.releaseReceipt id).leases phase := by
  unfold Budget.releaseReceipt
  split
  next lease hlease =>
    split
    next hcommitted =>
      exact h.inPlace hlease rfl rfl
    next => exact h
  next => exact h

theorem release {committed : Bool}
    (hneed : ∀ lease, b.leases.lookup id = some lease → lease.committed = committed →
      responses.lookup id = none ∧ (∀ l, (phase l).reserves ≠ some id) ∧
        ∀ l, phase l ≠ .freeing id) : LeaseInv responses (b.release id committed).leases phase := by
  unfold Budget.release
  split
  next lease hlease =>
    split
    next heq =>
      obtain ⟨hfile, hres, hfree⟩ := hneed lease hlease heq
      exact h.eraseLease hfile hres hfree
    next => exact h
  next => exact h

end

end LeaseInv

/-! ## Runs under a budget -/

/-- A budget is configured, and a write that fails after the rename keeps its lease. -/
def regular (s : State) : Event → Bool
  | .publish _ (.write _ .unsynced false) => false
  | _ => s.budget.isSome

theorem regular_budget (h : regular s e = true) : s.budget.isSome = true := by
  unfold regular at h
  split at h
  · cases h
  · exact h

/-- The server has a budget, and its leases cover what is on disk. -/
def Covered (s : State) : Prop :=
  ∃ b, s.budget = some b ∧ LeaseInv s.responses b.leases s.phase

theorem Walk.reserves_eq {q : Phase} (hq : s.phase l = q) (hb : s.budget = some b)
    (hw : Walk s l q p) : p.reserves = none ∨ p.reserves = (s.phase l).reserves := by
  cases hw with
  | unlimited id h =>
    rw [hb] at h
    cases h
  | refuse | authorize | admits | noReceipts => exact .inr (by rw [hq]; rfl)
  | _ => exact .inl rfl

theorem Covered.step (h : Covered s) (hk : KeepInv s.responses s.pending s.phase)
    (hreg : regular s e = true) (hstep : Section s e s') : Covered s' := by
  obtain ⟨b, hb, h⟩ := h
  cases hstep with
  | walk l _ hq hw => exact ⟨b, hb, h.enter (hw.reserves_eq hq hb) (by cases hw <;> nofun)⟩
  | leased l id _ hq hb' hr =>
    cases hb.symm.trans hb'
    exact ⟨_, rfl, h.reserve hr⟩
  | dispatched l id principal result _ hq =>
    exact ⟨b, hb, h.enter (.inr (by rw [hq]; rfl)) nofun⟩
  | unpublished l id _ _ hq | refused l id _ _ _ hq =>
    refine ⟨b, by simpa using hb, ?_⟩
    simpa using h.enter (l := l) (p := .ending (some id)) (.inr (by rw [hq]; rfl)) nofun
  | unsynced l id answer size found he _ hq hsize hroom hnew =>
    cases found with
    | false =>
      rw [he] at hreg
      cases hreg
    | true =>
      have hl : (s.phase l).reserves = some id := by rw [hq]; rfl
      exact ⟨b.commit id size false, by simp [hb],
        h.publish (f := ⟨size, _⟩) hl hnew hsize.2 false rfl nofun⟩
  | published l id answer size _ hq hsize hroom hnew =>
    have hl : (s.phase l).reserves = some id := by rw [hq]; rfl
    have hnext : (Answer.next id answer).reserves = none ∧
        ∀ id', Answer.next id answer ≠ .freeing id' := by
      match answer with
      | some ⟨principal, dispatch, some hooks⟩ => exact ⟨rfl, nofun⟩
      | some ⟨principal, dispatch, none⟩ => exact ⟨rfl, nofun⟩
      | none => exact ⟨rfl, nofun⟩
    exact ⟨b.commit id size _, by simp only [hb]; rfl,
      h.publish (f := ⟨size, _⟩) hl hnew hsize.2 _ hnext.1 hnext.2⟩
  | register | persist | readied => exact ⟨b, hb, h.enter (.inl rfl) nofun⟩
  | taken l id received reason _ hq ht hentry hheld =>
    exact ⟨b, hb, h.enter (.inl (by cases ht <;> rfl)) (by cases ht <;> nofun)⟩
  | unlinked l id _ hq hu =>
    -- The response was there, so it has a committed lease and nobody has begun to release it.
    have hfile : ∃ f, s.responses.lookup id = some f := by
      cases hu with
      | retire =>
        obtain ⟨⟨f, hf, _⟩, _⟩ := hk.keptFile l id (by rw [hq]; rfl)
        exact ⟨f, hf⟩
      | drop f hf hopt => exact ⟨f, hf⟩
    obtain ⟨f, hf⟩ := hfile
    obtain ⟨lease, hlease, hcommitted, _⟩ := h.files id f hf
    refine ⟨b, hb, h.eraseFile.enterFreeing (AList.lookup_erase _ _)
      ⟨lease, hlease, hcommitted⟩ fun l' hl' => ?_⟩
    have hnone := (h.freed l' id hl').1
    rw [hf] at hnone
    cases hnone
  | freed l id committed _ hq hf =>
    have hidle := h.enter (l := l) (p := .idle) (.inl rfl) nofun
    refine ⟨b.release id committed, by simp [hb], hidle.release fun lease hlease hc => ?_⟩
    cases hf with
    | finish =>
      have hl : (s.phase l).reserves = some id := by rw [hq]; rfl
      refine ⟨?_, fun l' => ?_, fun l' hl' => ?_⟩
      · refine Option.eq_none_iff_forall_not_mem.mpr fun f hf => ?_
        obtain ⟨lease', hlease', hcommitted, _⟩ := h.files id f hf
        exact not_open_of_committed hlease hlease' hc hcommitted
      · exact not_holds_update (·.reserves = some ·) h.apart hl (by nofun)
      · obtain ⟨_, lease', hlease', hcommitted⟩ := hidle.freed l' id hl'
        exact not_open_of_committed hlease hlease' hc hcommitted
    | free =>
      refine ⟨(h.freed l id hq).1, fun l' hl' => ?_, fun l' => ?_⟩
      · obtain ⟨lease', hlease', hopen, _⟩ := hidle.reserved l' id hl'
        exact not_open_of_committed hlease' hlease hopen hc
      · exact not_holds_update (· = .freeing ·) h.freedApart hq (by nofun)
  | expire | close | slowExit | swap | settlerExit | joinSettler | closeReturn => exact ⟨b, hb, h⟩
  | settle p howed hclose =>
    exact ⟨_, by simp only [State.settle, hb]; rfl, h.releaseReceipt⟩
  | cleanup id hfile hpending hkeeps =>
    obtain ⟨f, hf⟩ := Option.isSome_iff_exists.mp hfile
    refine ⟨_, by simp only [hb]; rfl, h.eraseFile.release fun lease hlease hc =>
      ⟨AList.lookup_erase _ _, fun l' hl' => ?_, fun l' hl' => ?_⟩⟩
    · obtain ⟨lease', hlease', hopen, _⟩ := h.reserved l' id hl'
      exact not_open_of_committed hlease' hlease hopen hc
    · have hnone := (h.freed l' id hl').1
      rw [hf] at hnone
      cases hnone
  | others files bytes receipts =>
    exact ⟨{ b with otherFiles := files, otherBytes := bytes, otherReceipts := receipts },
      by simp [hb], h⟩

/-- Under a budget no publication of a dispatched operation is refused. -/
theorem Covered.refused_eq (h : Covered s) (hstep : Section s e s') : s'.refused = s.refused := by
  obtain ⟨b, hb, h⟩ := h
  cases hstep with
  | refused l id answer size _ hq hsize hfull =>
    have hreserves : (s.phase l).reserves = some id := by rw [hq]; rfl
    rw [h.room hreserves hsize] at hfull
    cases hfull
  | unpublished | unsynced => simp
  | _ => rfl

/-- `initializeResponseBudget`: the leases of the responses that were found. -/
def Adopted (responses : GoMap String ResponseFile) (b : Budget) : Prop :=
  ∀ id f, responses.lookup id = some f →
    ∃ lease, b.leases.lookup id = some lease ∧ lease.committed = true ∧
      f.size ≤ lease.reservedBytes

theorem Adopted.leaseInv (h : Adopted responses b) :
    LeaseInv responses b.leases fun _ => .idle where
  files := h
  reserved := by simp [Phase.reserves]
  apart := by simp [Phase.reserves]
  freed := by simp
  freedApart := by simp
  bound := by simp [Phase.reserves]

/-- **Admission is a promise.** In every run the pending receipts stay within their limit, where a
    run takes a response away by age only when no receipt is pending for it (`outlived`). If the
    server has a budget that has adopted the responses found at the start, and a write that fails
    after the rename keeps its lease, then an operation that was dispatched is never refused the
    room for its response. -/
theorem admission_keeps_promise (responses : GoMap String ResponseFile) (budget : Option Budget)
    (hadopted : ∀ b, budget = some b → Adopted responses b) (events : List Event) (s : State)
    (hrun : exec step (State.initial responses budget) events = some s) :
    s.pending.len ≤ maxPendingReceipts ∧
      (Along step (fun s e => regular s e = true) (State.initial responses budget) events →
        s.refused = []) := by
  refine ⟨pending_len_le (filesBound_exec hrun) (settlementInv_exec hrun).keep, fun hreg => ?_⟩
  match events, hreg, hrun with
  | [], _, hrun =>
    cases hrun
    rfl
  | e :: rest, hreg, hrun =>
    -- The first event shows that there is a budget.
    obtain ⟨b, hb⟩ : ∃ b, budget = some b :=
      Option.isSome_iff_exists.mp (regular_budget hreg.1)
    have hinit : Covered (.initial responses budget) := ⟨b, hb, (hadopted b hb).leaseInv⟩
    have hall := exec_invariant_along (fun s e => regular s e = true)
      (fun s => Covered s ∧ SettlementInv s ∧ s.refused = [])
      (fun s e s' ⟨hcov, hset, hnil⟩ he hstep =>
        have hsec := step_section hstep
        ⟨hcov.step hset.keep he hsec, hset.step hsec, (hcov.refused_eq hsec).trans hnil⟩)
      ⟨hinit, .initial responses budget, rfl⟩ hreg hrun
    exact hall.2.2

/-- Two operations at once, each with a receipt, beside an adopted response. -/
def budgetedRun : List Event :=
  [.claim .fast "a", .claim .slow "b", .reserve .fast, .reserve .slow, .lease .fast false,
    .lease .slow false, .verify .fast (some somePrincipal), .verify .slow (some somePrincipal),
    .admits .fast, .admits .slow, .dispatch .fast ⟨false, true, true, some someHooks⟩,
    .dispatch .slow ⟨false, true, true, some someHooks⟩, .publish .fast (.write 100 .ok true),
    .publish .slow (.write 200 .ok true), .register .fast "d" 0, .register .slow "e" 0]

def oneResponse : GoMap String ResponseFile :=
  (∅ : GoMap String ResponseFile).insert "z" ⟨50, false⟩
def oneLease : Budget := ⟨(∅ : GoMap String Lease).insert "z" ⟨50, false, true⟩, 3, 4000, 1⟩

theorem admission_keeps_promise_budgetedRun :
    ∃ s, exec step (State.initial oneResponse (some oneLease)) budgetedRun = some s ∧
      s.pending.len = 2 ∧ s.pending.len ≤ maxPendingReceipts ∧ s.refused = [] := by
  have hadopted : ∀ b, some oneLease = some b → Adopted oneResponse b := by
    rintro _ ⟨⟩ id f hf
    rw [oneResponse, lookup_insert_ite] at hf
    split at hf
    next heq =>
      cases hf
      exact ⟨⟨50, false, true⟩, heq ▸ AList.lookup_insert _, rfl, le_rfl⟩
    next => cases hf
  refine reaches_imp (P := fun s => s.pending.len = 2) (by decide +kernel) fun s hs hlen => ?_
  obtain ⟨hle, hrefused⟩ := admission_keeps_promise oneResponse (some oneLease) hadopted
    budgetedRun s hs
  exact ⟨hlen, hle, hrefused (.of_check (q := regular) (fun _ _ h => h) (by decide +kernel))⟩

/-! ## Without a budget -/

/-- The lower-case hexadecimal text of a request id below 256. -/
def shortID (n : Nat) : String :=
  String.ofList (List.replicate 30 '0' ++ [Nat.digitChar (n / 16), Nat.digitChar (n % 16)])

theorem shortID_injOn {m n : Nat} (hm : m < 256) (hn : n < 256) (h : shortID m = shortID n) :
    m = n := by
  have hchars := List.append_cancel_left (String.ofList_injective h)
  simp only [List.cons.injEq, and_true] at hchars
  have hdigit : ∀ a < 16, ∀ b < 16, Nat.digitChar a = Nat.digitChar b → a = b := by decide
  have hhigh := hdigit (m / 16) (by omega) (n / 16) (by omega) hchars.1
  have hlow := hdigit (m % 16) (by omega) (n % 16) (by omega) hchars.2
  omega

/-- A directory with room for one more response. -/
def almostFull : GoMap String ResponseFile where
  entries := (List.range 127).map fun n => ⟨shortID n, ⟨100, false⟩⟩
  nodupKeys := by
    rw [List.NodupKeys, List.keys, List.map_map]
    refine List.Nodup.map_on (fun m hm n hn h => ?_) List.nodup_range
    rw [List.mem_range] at hm hn
    exact shortID_injOn (by omega) (by omega) h

/-- Both lanes are admitted to the last place; the fast lane takes it. -/
def lastPlaceRun : List Event :=
  [.claim .fast (shortID 200), .claim .slow (shortID 201), .reserve .fast, .reserve .slow,
    .lease .fast false, .lease .slow false, .verify .fast (some somePrincipal),
    .verify .slow (some somePrincipal), .admits .fast, .admits .slow,
    .dispatch .fast ⟨false, true, true, none⟩, .dispatch .slow ⟨false, true, true, none⟩,
    .publish .fast (.write 100 .ok true), .publish .slow (.write 100 .ok true)]

theorem lastPlace_refused :
    ∃ s, exec step (State.initial almostFull none) lastPlaceRun = some s ∧ s.refused = [1] := by
  decide +kernel

end AgentMultiplexer.SessionRpc.Receipts
