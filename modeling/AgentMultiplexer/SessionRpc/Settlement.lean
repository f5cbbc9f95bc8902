import AgentMultiplexer.SessionRpc.Receipts
import AgentMultiplexer.Theory.Transition

set_option autoImplicit false

/-! # Settled exactly once

The hooks a dispatch returned are, at every moment, in exactly one place: with the lane that
publishes the response, in the pending table, in some party's list of owed settlements, or settled.
Every section moves them from one place to another. The one move that could lose them is the
registration, which writes into the pending table by request id: it never meets an entry there,
because an entry's response is on disk and responses are published without replacing one. -/

namespace AgentMultiplexer.SessionRpc.Receipts

open Access Function GoMap List Transition State Function Nat

variable {responses : GoMap String ResponseFile} {pending pending' : GoMap String PendingReceipt}
  {phase : Lane → Phase} {s s' : State} {e : Event} {l l' : Lane} {id : String} {p : Phase}

/-! ## Updates of one lane -/

theorem update_lane (phase : Lane → Phase) (l : Lane) (p : Phase) (l' : Lane) :
    (l' = l ∧ update phase l p l' = p) ∨ (l' ≠ l ∧ update phase l p l' = phase l') := by
  by_cases h : l' = l
  · exact .inl ⟨h, by rw [h, update_self]⟩
  · exact .inr ⟨h, update_of_ne h _ _⟩

section Holdings

/-! `Q p k`: a lane in the phase `p` holds `k`. -/

variable {κ : Type} (Q : Phase → κ → Prop) {k k' : κ} {l₁ l₂ : Lane}

theorem holds_of_update (hp : ∀ k, Q p k → Q (phase l) k) (h : Q (update phase l p l') k) :
    Q (phase l') k := by
  rcases update_lane phase l p l' with ⟨rfl, heq⟩ | ⟨_, heq⟩
  · exact hp k (heq ▸ h)
  · exact heq ▸ h

theorem holds_of_update_one (hp : ∀ k, Q p k → k = k') (h : Q (update phase l p l') k) :
    (l' = l ∧ k = k') ∨ (l' ≠ l ∧ Q (phase l') k) := by
  rcases update_lane phase l p l' with ⟨hl, heq⟩ | ⟨hl, heq⟩
  · exact .inl ⟨hl, hp k (heq ▸ h)⟩
  · exact .inr ⟨hl, heq ▸ h⟩

theorem apart_update (hapart : ∀ l l' k, Q (phase l) k → Q (phase l') k → l = l')
    (hp : ∀ k, Q p k → k = k') (hfree : ∀ l', l' ≠ l → ¬ Q (phase l') k')
    (h₁ : Q (update phase l p l₁) k) (h₂ : Q (update phase l p l₂) k) : l₁ = l₂ := by
  rcases holds_of_update_one Q hp h₁ with ⟨rfl, rfl⟩ | ⟨hl₁, h₁⟩
  · rcases holds_of_update_one Q hp h₂ with ⟨rfl, _⟩ | ⟨hl₂, h₂⟩
    · rfl
    · exact absurd h₂ (hfree l₂ hl₂)
  · rcases holds_of_update_one Q hp h₂ with ⟨_, rfl⟩ | ⟨_, h₂⟩
    · exact absurd h₁ (hfree l₁ hl₁)
    · exact hapart l₁ l₂ k h₁ h₂

theorem not_holds_update (hapart : ∀ l l' k, Q (phase l) k → Q (phase l') k → l = l')
    (hl : Q (phase l) k) (hp : ¬ Q p k) : ¬ Q (update phase l p l') k := by
  rcases update_lane phase l p l' with ⟨_, heq⟩ | ⟨hne, heq⟩
  · rwa [heq]
  · rw [heq]
    exact fun h => hne (hapart l' l k h hl)

end Holdings

namespace State

variable {answer : Option Answer}

@[simp] theorem failPublication_eq : s.failPublication l id answer = { s with
    phase := update s.phase l (.ending (some id))
    owed := answer.elim s.owed fun a =>
      update s.owed (.lane l) (failedSettlement id a.dispatch a.hooks)
    failed := s.failed ++ (answer.map Answer.dispatch).toList } := by
  cases answer <;> simp [failPublication, enter]

theorem failPublication_owed_of_ne {p : Party} (hne : p ≠ .lane l) :
    (s.failPublication l id answer).owed p = s.owed p := by
  cases answer with
  | none => rfl
  | some a => exact update_of_ne hne _ _

end State

theorem State.looks_owed {p : Party} (h : s.looks p = true) : s.owed p = [] := by
  rcases p with (_ | _) | _ | _ <;> simp_all [looks]

/-! ## A response stays while its receipt is wanted -/

/-- The response on disk demands a receipt. -/
def Required (responses : GoMap String ResponseFile) (id : String) : Prop :=
  ∃ f, responses.lookup id = some f ∧ f.receiptRequired = true

/-- A pending receipt has its response on disk, and so has a receipt about to be registered or just
    accepted; such a response belongs to one lane and to no entry of the table. -/
structure KeepInv (responses : GoMap String ResponseFile) (pending : GoMap String PendingReceipt)
    (phase : Lane → Phase) : Prop where
  pendingFile : ∀ id entry, pending.lookup id = some entry → Required responses id
  keptFile : ∀ l id, (phase l).keeps = some id →
    Required responses id ∧ pending.lookup id = none
  apart : ∀ l l' id, (phase l).keeps = some id → (phase l').keeps = some id → l = l'

namespace KeepInv

section

variable (h : KeepInv responses pending phase)

include h

theorem enter (hp : p.keeps = none) : KeepInv responses pending (update phase l p) := by
  have hsub : ∀ l' id, (update phase l p l').keeps = some id → (phase l').keeps = some id :=
    fun l' id => holds_of_update (·.keeps = some ·) (by simp [hp])
  exact { h with
      keptFile := fun l' id hkeeps => h.keptFile l' id (hsub l' id hkeeps)
      apart := fun l₁ l₂ id h₁ h₂ => h.apart l₁ l₂ id (hsub l₁ id h₁) (hsub l₂ id h₂) }

/-- A lane begins to keep a response that nobody else has to do with. -/
theorem keep (hp : p.keeps = some id)
    (hfile : Required responses id) (hnone : pending.lookup id = none)
    (hfree : ∀ l', l' ≠ l → (phase l').keeps ≠ some id) :
    KeepInv responses pending (update phase l p) := by
  have hone : ∀ id', p.keeps = some id' → id' = id := by simp [hp, eq_comm]
  refine { h with
      keptFile := fun l' id' hkeeps => ?_
      apart := fun l₁ l₂ id' => apart_update (·.keeps = some ·) h.apart hone hfree }
  rcases holds_of_update_one (·.keeps = some ·) hone hkeeps with ⟨_, rfl⟩ | ⟨_, hold⟩
  · exact ⟨hfile, hnone⟩
  · exact h.keptFile l' id' hold

/-- Entries leave the table or change in place. -/
theorem shrink (hsub : ∀ id entry, pending'.lookup id = some entry → (pending.lookup id).isSome) :
    KeepInv responses pending' phase where
  pendingFile id entry hentry := by
    obtain ⟨old, hold⟩ := Option.isSome_iff_exists.mp (hsub id entry hentry)
    exact h.pendingFile id old hold
  keptFile l id hkeeps := by
    obtain ⟨hfile, hnone⟩ := h.keptFile l id hkeeps
    refine ⟨hfile, Option.eq_none_iff_forall_not_mem.mpr fun entry hentry => ?_⟩
    have hsome := hsub id entry hentry
    rw [hnone] at hsome
    cases hsome
  apart := h.apart

theorem insertFile {f : ResponseFile}
    (hnew : responses.lookup id = none) : KeepInv (responses.insert id f) pending phase := by
  have hgrow : ∀ id', Required responses id' → Required (responses.insert id f) id' := by
    rintro id' ⟨f', hf', hreq⟩
    have hne : id' ≠ id := by
      rintro rfl
      rw [hnew] at hf'
      cases hf'
    exact ⟨f', by rw [lookup_insert_ite, if_neg hne, hf'], hreq⟩
  exact
    { pendingFile := fun id' entry hentry => hgrow id' (h.pendingFile id' entry hentry)
      keptFile := fun l id' hkeeps =>
        ⟨hgrow id' (h.keptFile l id' hkeeps).1, (h.keptFile l id' hkeeps).2⟩
      apart := h.apart }

/-- No receipt is wanted for a response that demands none. -/
theorem unwanted (hnot : ¬ Required responses id) :
    pending.lookup id = none ∧ ∀ l, (phase l).keeps ≠ some id :=
  ⟨Option.eq_none_iff_forall_not_mem.mpr fun entry hentry => hnot (h.pendingFile id entry hentry),
    fun l hkeeps => hnot (h.keptFile l id hkeeps).1⟩

theorem eraseFile (hnone : pending.lookup id = none)
    (hfree : ∀ l, (phase l).keeps ≠ some id) : KeepInv (responses.erase id) pending phase := by
  have hstay : ∀ id', id' ≠ id → Required responses id' → Required (responses.erase id) id' := by
    rintro id' hne ⟨f, hf, hreq⟩
    exact ⟨f, by rw [lookup_erase_ite, if_neg hne, hf], hreq⟩
  refine
    { pendingFile := fun id' entry hentry => hstay id' ?_ (h.pendingFile id' entry hentry)
      keptFile := fun l id' hkeeps =>
        ⟨hstay id' ?_ (h.keptFile l id' hkeeps).1, (h.keptFile l id' hkeeps).2⟩
      apart := h.apart }
  · rintro rfl
    rw [hnone] at hentry
    cases hentry
  · rintro rfl
    exact hfree l hkeeps

end

end KeepInv

variable {q : Phase}

theorem Walk.keeps_none (hw : Walk s l q p) : p.keeps = none := by
  cases hw <;> rfl

theorem KeepInv.step (h : KeepInv s.responses s.pending s.phase) (hstep : Section s e s') :
    KeepInv s'.responses s'.pending s'.phase := by
  cases hstep with
  | walk l howed hq hw => exact h.enter hw.keeps_none
  | leased | dispatched | persist | freed => exact h.enter rfl
  | unpublished | refused => simpa using h.enter rfl
  | unsynced l id answer size found he howed hq hsize hroom hnew =>
    simpa using (h.insertFile hnew).enter rfl
  | published l id answer size howed hq hsize hroom hnew =>
    have hnot : ¬ Required s.responses id := by
      rintro ⟨f, hf, _⟩
      rw [hnew] at hf
      cases hf
    obtain ⟨hfresh, hfree⟩ := h.unwanted hnot
    match answer with
    | some ⟨principal, dispatch, some hooks⟩ =>
      exact (h.insertFile hnew).keep rfl ⟨_, AList.lookup_insert _, rfl⟩ hfresh fun l' _ => hfree l'
    | some ⟨principal, dispatch, none⟩ => exact (h.insertFile hnew).enter rfl
    | none => exact (h.insertFile hnew).enter rfl
  | register l id principal held digest now howed hq =>
    have hkeeps : (s.phase l).keeps = some id := by rw [hq]; rfl
    have hentered := h.enter (l := l) (p := .persisting id held) rfl
    exact
      { hentered with
        pendingFile := fun id' entry hentry => by
          rw [register, lookup_insert_ite] at hentry
          split at hentry
          next heq => exact heq ▸ (h.keptFile l id hkeeps).1
          next => exact h.pendingFile id' entry hentry
        keptFile := fun l' id' hk => by
          have hne : id' ≠ id := by
            rintro rfl
            exact not_holds_update (·.keeps = some ·) h.apart hkeeps (by nofun) hk
          obtain ⟨hfile, hnone⟩ := hentered.keptFile l' id' hk
          exact ⟨hfile, by rw [register, lookup_insert_ite, if_neg hne, hnone]⟩ }
  | readied l id howed hq hentry =>
    refine (h.shrink fun id' entry' hlook => ?_).enter rfl
    rw [lookup_insert_ite] at hlook
    split at hlook
    next heq => rw [heq, hentry]; rfl
    next => rw [hlook]; rfl
  | @taken l id entry entry' received reason q p howed hq ht hentry hheld =>
    have herased : ∀ id' x, (s.pending.erase id).lookup id' = some x →
        (s.pending.lookup id').isSome := by
      intro id' x hlook
      rw [lookup_of_erase hlook]
      rfl
    cases ht with
    | ready | late => exact (h.shrink herased).enter rfl
    | accept =>
      refine (h.shrink herased).keep rfl (h.pendingFile id entry hentry)
        (AList.lookup_erase _ _) fun l' _ hk => ?_
      have hnone := (h.keptFile l' id hk).2
      rw [hentry] at hnone
      cases hnone
  | unlinked l id howed hq hu =>
    cases hu with
    | retire =>
      have hkeeps : (s.phase l).keeps = some id := by rw [hq]; rfl
      refine (h.enter (l := l) (p := .freeing id) rfl).eraseFile (h.keptFile l id hkeeps).2 ?_
      exact fun l' => not_holds_update (·.keeps = some ·) h.apart hkeeps (by nofun)
    | drop f hf hopt =>
      have hnot : ¬ Required s.responses id := by
        rintro ⟨f', hf', hreq⟩
        rw [hf] at hf'
        cases hf'
        rw [hopt] at hreq
        cases hreq
      exact (h.eraseFile (h.unwanted hnot).1 (h.unwanted hnot).2).enter rfl
  | expire p now hlooks =>
    refine h.shrink fun id entry hlook => ?_
    obtain ⟨old, hold, -⟩ := lookup_mapVal_eq_some.mp hlook
    rw [(lookup_filter_eq_some.mp hold).1]
    rfl
  | settle | others | close | slowExit | settlerExit | joinSettler | closeReturn => exact h
  | cleanup id hfile hpending hkeeps => exact h.eraseFile hpending hkeeps
  | swap => exact h.shrink fun id entry hlook => by cases hlook

/-! ## Where the hooks are -/

/-- Does the callback that must be run belong to this dispatch? As a number, to be counted. -/
def Held.weight (d : Nat) (held : Held) : Nat :=
  if held.hooks.settled = true ∧ held.dispatch = d then 1 else 0

/-- The hooks in the hands of a lane. -/
def Phase.weight (d : Nat) : Phase → Nat
  | .publishing _ (some ⟨_, dispatch, some hooks⟩) => Held.weight d ⟨dispatch, hooks⟩
  | .registering _ _ held => held.weight d
  | _ => 0

def owedWeight (d : Nat) (list : List Settlement) : Nat :=
  (list.map fun x => x.held.weight d).sum

/-- The sum of a weight over the two lanes, and over the four parties. -/
def overLanes {α : Type} (f : α → Nat) (g : Lane → α) : Nat := f (g .fast) + f (g .slow)
def overParties {α : Type} (f : α → Nat) (g : Party → α) : Nat :=
  f (g (.lane .fast)) + f (g (.lane .slow)) + f (g .settler) + f (g .closer)

theorem overLanes_update {α : Type} (f : α → Nat) (g : Lane → α) (l : Lane) (x : α) :
    overLanes f (update g l x) + f (g l) = overLanes f g + f x := by
  cases l <;> simp [overLanes] <;> omega

theorem overParties_update {α : Type} (f : α → Nat) (g : Party → α) (p : Party) (x : α) :
    overParties f (update g p x) + f (g p) = overParties f g + f x := by
  rcases p with (_ | _) | _ | _ <;> simp [overParties] <;> omega

/-- In how many places the hooks of a dispatch are: settled, owed, pending, or with a lane. -/
def State.places (s : State) (d : Nat) : Nat :=
  s.settled.count d + overParties (owedWeight d) s.owed +
    s.pending.total (fun entry => entry.held.weight d) + overLanes (Phase.weight d) s.phase

/-- Hooks with a `Settled` callback are in one place, other hooks in none; dispatch numbers are not
    used twice. -/
structure PlaceInv (s : State) : Prop where
  places : ∀ d, s.places d = s.mandatory.count d
  fresh : ∀ d ∈ s.mandatory, d < s.dispatches
  nodup : s.mandatory.Nodup

@[simp] theorem owedWeight_nil (d : Nat) : owedWeight d [] = 0 := rfl

@[simp] theorem owedWeight_cons (d : Nat) (x : Settlement) (rest : List Settlement) :
    owedWeight d (x :: rest) = x.held.weight d + owedWeight d rest := by
  simp [owedWeight]

/-- What a failed response leaves to settle is what the lane had in hand. -/
theorem owedWeight_failedSettlement (d : Nat) (a : Answer) :
    owedWeight d (failedSettlement id a.dispatch a.hooks) =
      Phase.weight d (.publishing id (some a)) := by
  obtain ⟨principal, dispatch, _ | hooks⟩ := a <;> simp [failedSettlement, Phase.weight]

theorem Walk.weight_eq (hw : Walk s l q p) (d : Nat) :
    Phase.weight d q = 0 ∧ Phase.weight d p = 0 := by
  cases hw <;> exact ⟨rfl, rfl⟩

/-- The settlements made of the entries of a table weigh what the table weighs. -/
theorem owedWeight_entries (d : Nat) (m : GoMap String PendingReceipt) (received : Bool)
    (reason : SettlementReason) :
    owedWeight d (m.entries.map fun e => ⟨e.1, e.2.held, received, reason⟩) =
      m.total fun entry => entry.held.weight d := by
  simp only [owedWeight, GoMap.total, List.map_map]
  rfl

/-- The judgement of a dispatch result hands the hooks to the response or to a settlement. -/
theorem dispatched_weight (d : Nat) (principal : Principal) (result : DispatchResult) (n : Nat) :
    Phase.weight d (.publishing id (some ⟨principal, n, result.keptHooks⟩)) +
        owedWeight d (if result.keptHooks.isSome then []
          else failedSettlement id n result.receipt) =
      if result.receipt.any (·.settled) = true ∧ n = d then 1 else 0 := by
  obtain ⟨failed, valid, ok, receipt⟩ := result
  cases receipt with
  | none => cases failed <;> cases valid <;> simp [DispatchResult.keptHooks, Phase.weight,
      failedSettlement]
  | some hooks =>
    by_cases hkept : (DispatchResult.keptHooks ⟨failed, valid, ok, some hooks⟩).isSome
    · have heq : DispatchResult.keptHooks ⟨failed, valid, ok, some hooks⟩ = some hooks := by
        unfold DispatchResult.keptHooks at hkept ⊢
        split at hkept
        · cases hkept
        split at hkept
        · cases hkept
        rw [if_neg ‹_›, if_neg ‹_›]
      simp [heq, Phase.weight, Held.weight]
    · have heq : DispatchResult.keptHooks ⟨failed, valid, ok, some hooks⟩ = none := by
        simpa using hkept
      simp [heq, Phase.weight, Held.weight, failedSettlement]

/-- A publication that fails moves the hooks from the lane to its owed settlements. -/
theorem State.places_failPublication {answer : Option Answer} {d : Nat}
    (howed : s.owed (.lane l) = []) (hq : s.phase l = .publishing id answer)
    (hp : Phase.weight d p = 0) : overParties (owedWeight d) (s.failPublication l id answer).owed +
        overLanes (Phase.weight d) (update s.phase l p) =
      overParties (owedWeight d) s.owed + overLanes (Phase.weight d) s.phase := by
  have hlanes := overLanes_update (Phase.weight d) s.phase l p
  rw [hq] at hlanes
  cases answer with
  | none =>
    have hzero : Phase.weight d (.publishing id none) = 0 := rfl
    simp only [failPublication, enter]
    omega
  | some a =>
    have hparties := overParties_update (owedWeight d) s.owed (.lane l)
      (failedSettlement id a.dispatch a.hooks)
    rw [howed, owedWeight_nil, owedWeight_failedSettlement] at hparties
    simp only [failPublication]
    omega

theorem overLanes_enter {d : Nat} (hq : Phase.weight d (s.phase l) = 0)
    (hp : Phase.weight d p = 0) : overLanes (Phase.weight d) (update s.phase l p) =
      overLanes (Phase.weight d) s.phase := by
  have h := overLanes_update (Phase.weight d) s.phase l p
  omega

theorem count_ite_append (c : Prop) [Decidable c] (list : List Nat) (n d : Nat) :
    (if c then list ++ [n] else list).count d = list.count d + if c ∧ n = d then 1 else 0 := by
  split_ifs <;> simp_all

/-- Hooks move from one place to another; only a dispatch brings new ones. -/
def State.Conserves (d : Nat) (s s' : State) : Prop :=
  s'.places d + s.mandatory.count d = s.places d + s'.mandatory.count d

section Conserves

variable {d : Nat} {principal : Principal} {held : Held}

theorem conserves_dispatched (result : DispatchResult) (howed : s.owed (.lane l) = [])
    (hq : s.phase l = .dispatching id principal) :
    s.Conserves d (s.dispatched l id principal result) := by
  simp only [Conserves, places, State.dispatched]
  have hlanes := overLanes_update (Phase.weight d) s.phase l
    (.publishing id (some ⟨principal, s.dispatches, result.keptHooks⟩))
  have hparties := overParties_update (owedWeight d) s.owed (.lane l)
    (if result.keptHooks.isSome then [] else failedSettlement id s.dispatches result.receipt)
  have hnew := @dispatched_weight id d principal result s.dispatches
  have hzero : Phase.weight d (s.phase l) = 0 := by rw [hq]; rfl
  rw [howed, owedWeight_nil] at hparties
  rw [count_ite_append]
  omega

theorem overLanes_published {answer : Option Answer} (hq : s.phase l = .publishing id answer) :
    overLanes (Phase.weight d) (update s.phase l (Answer.next id answer)) =
      overLanes (Phase.weight d) s.phase := by
  have hlanes := overLanes_update (Phase.weight d) s.phase l (Answer.next id answer)
  have hsame : Phase.weight d (Answer.next id answer) = Phase.weight d (s.phase l) := by
    rw [hq]
    match answer with
    | some ⟨principal, dispatch, some hooks⟩ => rfl
    | some ⟨principal, dispatch, none⟩ => rfl
    | none => rfl
  omega

theorem conserves_register (digest : String) (now : Int)
    (hk : KeepInv s.responses s.pending s.phase) (hq : s.phase l = .registering id principal held) :
    s.Conserves d (s.register l id principal held digest now) := by
  have hlanes := overLanes_update (Phase.weight d) s.phase l (.persisting id held)
  have hkeeps : (s.phase l).keeps = some id := by rw [hq]; rfl
  simp only [Conserves, places, State.register]
  rw [total_insert_of_lookup_none (hk.keptFile l id hkeeps).2]
  rw [hq] at hlanes
  simp only [Phase.weight] at hlanes ⊢
  omega

theorem conserves_take {entry entry' : PendingReceipt} {q : Phase} (received : Bool)
    (reason : SettlementReason) (howed : s.owed (.lane l) = []) (hq : s.phase l = q)
    (ht : Takes id q p) (hentry : s.pending.lookup id = some entry)
    (hheld : entry'.held = entry.held) : s.Conserves d (s.take l id entry' received reason p) := by
  have htotal := total_erase_add (f := fun entry => entry.held.weight d) hentry
  have hparties := overParties_update (owedWeight d) s.owed (.lane l)
    [⟨id, entry'.held, received, reason⟩]
  simp only [howed, owedWeight_nil, owedWeight_cons] at hparties
  simp only [Conserves, places, State.take]
  rw [overLanes_enter (by rw [hq]; cases ht <;> rfl) (by cases ht <;> rfl)]
  rw [hheld] at *
  omega

theorem conserves_expire {p : Party} {now : Int} (hlooks : s.looks p = true) :
    s.Conserves d (s.expire p now) := by
  have howed : s.owed p = [] := looks_owed hlooks
  have hparties := overParties_update (owedWeight d) s.owed p
    ((s.pending.filter fun _ entry => !!due now entry).entries.map fun e =>
      ⟨e.1, e.2.held, false, .graceExpired⟩)
  rw [howed, owedWeight_nil, owedWeight_entries] at hparties
  have hsplit := total_filter_add (f := fun entry => entry.held.weight d)
    (m := s.pending) fun _ entry => !due now entry
  simp only [Conserves, places, State.expire]
  rw [total_mapVal (by intro k x; split <;> rfl)]
  omega

theorem conserves_settle {p : Party} {first : Settlement} {rest : List Settlement}
    (howed : s.owed p = first :: rest) : s.Conserves d (s.settle p first rest) := by
  have hparties := overParties_update (owedWeight d) s.owed p rest
  rw [howed, owedWeight_cons] at hparties
  simp only [Conserves, places, State.settle]
  rw [count_ite_append]
  unfold Held.weight at *
  omega

theorem conserves_swap (howed : s.owed .closer = []) : s.Conserves d s.swap := by
  have hparties := overParties_update (owedWeight d) s.owed .closer
    (s.pending.entries.map fun e => ⟨e.1, e.2.held, false, .serverClosed⟩)
  rw [howed, owedWeight_nil, owedWeight_entries] at hparties
  have hempty : GoMap.total (fun entry => entry.held.weight d)
      (∅ : GoMap String PendingReceipt) = 0 := rfl
  simp only [Conserves, places, State.swap]
  omega

end Conserves

/-- Every section conserves the hooks. -/
theorem Section.places (hk : KeepInv s.responses s.pending s.phase)
    (hcloser : s.closing = .joining → s.owed .closer = []) (hstep : Section s e s') (d : Nat) :
    s.Conserves d s' := by
  cases hstep with
  | walk l howed hq hw =>
    simp only [Conserves, State.places, enter]
    rw [overLanes_enter (hq ▸ (hw.weight_eq d).1) (hw.weight_eq d).2]
  | leased l id howed hq hb hr =>
    simp only [Conserves, State.places, enter]
    rw [overLanes_enter (by rw [hq]; rfl) rfl]
  | dispatched l id principal result howed hq => exact conserves_dispatched result howed hq
  | unpublished _ id _ howed hq | refused _ id _ _ howed hq =>
    have hmove := places_failPublication (p := .ending (some id)) (d := d) howed hq rfl
    simp only [Conserves, State.places, failPublication_eq] at hmove ⊢
    omega
  | unsynced l id answer size found he howed hq hsize hroom hnew =>
    have hmove := places_failPublication (p := .ending (if found then none else some id)) (d := d)
      howed hq rfl
    simp only [Conserves, State.places, failPublication_eq] at hmove ⊢
    omega
  | published l id answer size howed hq hsize hroom hnew =>
    simp only [Conserves, State.places]
    rw [overLanes_published hq]
  | register l id principal held digest now howed hq => exact conserves_register digest now hk hq
  | persist l id held howed hq =>
    simp only [Conserves, State.places, State.persist]
    rw [overLanes_enter (by rw [hq]; rfl) rfl]
  | @readied l id entry howed hq hentry =>
    have htotal := total_insert_of_lookup (f := fun entry => entry.held.weight d)
      (v := { entry with ready := true }) hentry
    simp only [Conserves, State.places]
    rw [overLanes_enter (by rw [hq]; rfl) rfl]
    simp only at htotal
    omega
  | taken l id received reason howed hq ht hentry hheld =>
    exact conserves_take received reason howed hq ht hentry hheld
  | unlinked l id howed hq hu =>
    simp only [Conserves, State.places, enter]
    rw [overLanes_enter (by rw [hq]; cases hu <;> rfl) rfl]
  | freed l id committed howed hq hf =>
    simp only [Conserves, State.places, enter]
    rw [overLanes_enter (by rw [hq]; cases hf <;> rfl) rfl]
  | expire p now hlooks => exact conserves_expire hlooks
  | settle p howed hclose => exact conserves_settle howed
  | cleanup | others | close | slowExit | settlerExit | joinSettler | closeReturn => rfl
  | swap hc hslow => exact conserves_swap (hcloser hc)

theorem PlaceInv.step (h : PlaceInv s) (hk : KeepInv s.responses s.pending s.phase)
    (hcloser : s.closing = .joining → s.owed .closer = []) (hstep : Section s e s') :
    PlaceInv s' := by
  have hplaces : ∀ d, s'.places d = s'.mandatory.count d := by
    intro d
    have hmove := hstep.places hk hcloser d
    have hold := h.places d
    unfold Conserves at hmove
    omega
  cases hstep with
  | dispatched l id principal result howed hq =>
    refine ⟨hplaces, fun d hd => ?_, ?_⟩
    · simp only [dispatched] at hd ⊢
      split at hd
      · rcases mem_append.mp hd with hold | hnew
        · exact lt_succ_of_lt (h.fresh d hold)
        · rw [mem_singleton.mp hnew]
          exact lt_succ_self _
      · exact lt_succ_of_lt (h.fresh d hd)
    · simp only [dispatched]
      split
      · refine nodup_append.mpr ⟨h.nodup, nodup_singleton _, fun a ha b hb => ?_⟩
        rw [mem_singleton.mp hb]
        exact (h.fresh a ha).ne
      · exact h.nodup
  | unpublished | refused | unsynced => exact ⟨hplaces, by simpa using h.fresh, by simpa using h.nodup⟩
  | _ => exact ⟨hplaces, h.fresh, h.nodup⟩

/-! ## Closing -/

/-- What the stages of `Close` have established. -/
structure CloseInv (s : State) : Prop where
  fastIdle : s.closing ≠ .notCalled → s.phase .fast = .idle ∧ s.owed (.lane .fast) = []
  slowIdle : s.slowDone = true → s.phase .slow = .idle ∧ s.owed (.lane .slow) = []
  joined : s.closing ≠ .notCalled → s.closing ≠ .joining →
    s.slowDone = true ∧ s.pending.entries = []
  settlerDone : s.settlementDone = true → s.owed .settler = []
  late : s.closing = .settling ∨ s.closing = .returned → s.settlementDone = true
  early : s.closing = .notCalled ∨ s.closing = .joining → s.owed .closer = []
  returned : s.closing = .returned → s.owed .closer = []

namespace CloseInv

theorem serves (h : CloseInv s) (hbusy : s.phase l ≠ .idle ∨ s.owed (.lane l) ≠ []) :
    s.serves l = true := by
  cases l with
  | fast =>
    refine decide_eq_true (not_not.mp fun hcalled => ?_)
    obtain ⟨hidle, howed⟩ := h.fastIdle hcalled
    exact hbusy.elim (· hidle) (· howed)
  | slow =>
    cases hdone : s.slowDone with
    | false => simp [serves, hdone]
    | true =>
      obtain ⟨hidle, howed⟩ := h.slowIdle hdone
      exact (hbusy.elim (· hidle) (· howed)).elim

/-- A lane that has not been waited for may do anything to the table and to itself. -/
theorem lane (h : CloseInv s) (hserves : s.serves l = true) (hclosing : s'.closing = s.closing)
    (hslow : s'.slowDone = s.slowDone) (hdone : s'.settlementDone = s.settlementDone)
    (howed : ∀ p, p ≠ .lane l → s'.owed p = s.owed p)
    (hphase : ∀ l', l' ≠ l → s'.phase l' = s.phase l') : CloseInv s' := by
  have hsettler : s'.owed .settler = s.owed .settler := howed _ (by simp)
  have hcloser : s'.owed .closer = s.owed .closer := howed _ (by simp)
  have hfast : s'.closing ≠ .notCalled → .fast ≠ l := by
    rintro hcalled rfl
    exact hcalled (hclosing.trans (of_decide_eq_true hserves))
  have hslow' : s'.slowDone = true → .slow ≠ l := by
    rintro hd rfl
    rw [State.serves, ← hslow, hd] at hserves
    cases hserves
  exact
    { fastIdle := fun hc => by
        rw [hphase _ (hfast hc), howed _ (by simpa using hfast hc)]
        exact h.fastIdle (hclosing ▸ hc)
      slowIdle := fun hd => by
        rw [hphase _ (hslow' hd), howed _ (by simpa using hslow' hd)]
        exact h.slowIdle (hslow ▸ hd)
      joined := fun hc hj => by
        have hd := (h.joined (hclosing ▸ hc) (hclosing ▸ hj)).1
        -- Both lanes have been waited for.
        cases l with
        | fast => exact absurd rfl (hfast hc)
        | slow => exact absurd rfl (hslow' (hslow.trans hd))
      settlerDone := fun hd => hsettler.trans (h.settlerDone (hdone ▸ hd))
      late := fun hc => hdone.trans (h.late (hclosing ▸ hc))
      early := fun hc => hcloser.trans (h.early (hclosing ▸ hc))
      returned := fun hc => hcloser.trans (h.returned (hclosing ▸ hc)) }

end CloseInv

theorem Walk.serves (h : CloseInv s) (hq : s.phase l = q) (hw : Walk s l q p) :
    s.serves l = true := by
  cases hw with
  | claim _ hs | claimReceipt _ _ hs | claimRelease _ hs => exact hs
  | _ => exact h.serves (.inl (by rw [hq]; nofun))

theorem CloseInv.expire {p : Party} {now : Int} (h : CloseInv s) (hlooks : s.looks p = true) :
    CloseInv (s.expire p now) := by
  cases p with
  | lane l =>
    cases l with
    | fast =>
      have hopen : s.closing = .notCalled := by
        simp only [looks, Bool.and_eq_true, decide_eq_true_eq] at hlooks
        exact hlooks.1.1
      exact h.lane (l := .fast) (decide_eq_true hopen) rfl rfl rfl
        (fun _ hne => update_of_ne hne _ _) fun _ _ => rfl
    | slow => cases hlooks
  | settler =>
    have hrunning : s.settlementDone = false := by
      simp only [looks, Bool.and_eq_true, Bool.not_eq_true'] at hlooks
      exact hlooks.1
    have hempty : s.pending.entries = [] → (s.expire .settler now).pending.entries = [] := by
      intro hnil
      simp [State.expire, GoMap.filter, GoMap.mapVal, hnil]
    exact { h with
      joined := fun hc hj => ⟨(h.joined hc hj).1, hempty (h.joined hc hj).2⟩
      settlerDone := fun hd => by
        rw [State.expire, hrunning] at hd
        cases hd }
  | closer => cases hlooks

theorem CloseInv.settle {p : Party} {first : Settlement} {rest : List Settlement} (h : CloseInv s)
    (hfirst : s.owed p = first :: rest) (hclose : p = .closer → s.closing = .settling) :
    CloseInv (s.settle p first rest) := by
  cases p with
  | lane l =>
    exact h.lane (h.serves (.inr (by simp [hfirst]))) rfl rfl rfl
      (fun _ hne => update_of_ne hne _ _) fun _ _ => rfl
  | settler =>
    exact { h with
      settlerDone := fun hd => absurd ((h.settlerDone hd).symm.trans hfirst) (by simp) }
  | closer =>
    have hc := hclose rfl
    refine { h with early := fun hearly => ?_, returned := fun hret => ?_ }
    · rw [State.settle, hc] at hearly
      simp at hearly
    · rw [State.settle, hc] at hret
      cases hret

theorem CloseInv.step (h : CloseInv s) (hstep : Section s e s') : CloseInv s' := by
  have hphase : ∀ (l : Lane) (p : Phase) (l' : Lane), l' ≠ l →
      update s.phase l p l' = s.phase l' := fun l p l' hne => update_of_ne hne _ _
  have howed : ∀ (l : Lane) (list : List Settlement) (p : Party), p ≠ .lane l →
      update s.owed (.lane l) list p = s.owed p :=
    fun l list p hne => update_of_ne hne _ _
  have hbusy : ∀ {l : Lane} {q : Phase}, s.phase l = q → q ≠ .idle → s.serves l = true :=
    fun hq hne => h.serves (.inl (hq ▸ hne))
  cases hstep with
  | walk l _ hq hw =>
    exact h.lane (hw.serves h hq) rfl rfl rfl (fun _ _ => rfl) (hphase l _)
  | leased l _ _ hq | published l _ _ _ _ hq | register l _ _ _ _ _ _ hq | persist l _ _ _ hq
  | readied l _ _ hq =>
    exact h.lane (hbusy hq (by simp)) rfl rfl rfl (fun _ _ => rfl) (hphase l _)
  | dispatched l id principal result _ hq =>
    exact h.lane (hbusy hq (by simp)) rfl rfl rfl (howed l _) (hphase l _)
  | unpublished l _ _ _ hq | refused l _ _ _ _ hq =>
    exact h.lane (hbusy hq (by simp)) (by simp) (by simp) (by simp)
      (fun p => failPublication_owed_of_ne) (by simpa using hphase l _)
  | unsynced l id answer size found he _ hq hsize hroom hnew =>
    exact h.lane (hbusy hq (by simp)) (by simp) (by simp) (by simp)
      (fun p => failPublication_owed_of_ne) (hphase l _)
  | taken l id received reason _ hq ht hentry hheld =>
    exact h.lane (hbusy hq (by cases ht <;> simp)) rfl rfl rfl (howed l _) (hphase l _)
  | unlinked l id _ hq hu =>
    exact h.lane (hbusy hq (by cases hu <;> simp)) rfl rfl rfl (fun _ _ => rfl) (hphase l _)
  | freed l id committed _ hq hf =>
    exact h.lane (hbusy hq (by cases hf <;> simp)) rfl rfl rfl (fun _ _ => rfl) (hphase l _)
  | expire p now hlooks => exact h.expire hlooks
  | settle p hfirst hclose => exact h.settle hfirst hclose
  | cleanup | others =>
    exact { h with }
  | close hc hq hfast =>
    exact ⟨fun _ => ⟨hq, hfast⟩, h.slowIdle, fun _ hj => absurd rfl hj, h.settlerDone,
      fun hlate => by simp at hlate, fun _ => h.early (.inl hc), (by simp)⟩
  | slowExit hc hq hslow =>
    exact { h with
      slowIdle := fun _ => ⟨hq, hslow⟩
      joined := fun h₁ h₂ => ⟨rfl, (h.joined h₁ h₂).2⟩ }
  | swap hc hslow =>
    exact ⟨fun _ => h.fastIdle (by simp [hc]), h.slowIdle, fun _ _ => ⟨hslow, rfl⟩,
      h.settlerDone, fun hlate => by simp [State.swap] at hlate,
      fun hearly => by simp [State.swap] at hearly, fun hret => by simp [State.swap] at hret⟩
  | settlerExit hc hsettler =>
    exact { h with settlerDone := fun _ => hsettler, late := fun _ => rfl }
  | joinSettler hc hdone =>
    have hjoined := h.joined (by simp [hc]) (by simp [hc])
    exact ⟨fun _ => h.fastIdle (by simp [hc]), h.slowIdle, fun _ _ => hjoined,
      h.settlerDone, fun _ => hdone, fun hearly => by simp at hearly, (by simp)⟩
  | closeReturn hc hcloser =>
    have hjoined := h.joined (by simp [hc]) (by simp [hc])
    exact ⟨fun _ => h.fastIdle (by simp [hc]), h.slowIdle, fun _ _ => hjoined,
      h.settlerDone, fun _ => h.late (.inl hc), fun hearly => by simp at hearly,
      fun _ => hcloser⟩

/-! ## A response that failed is not reported as persisted -/

/-- The dispatch whose response a lane publishes or has just published. -/
def Phase.answers : Phase → Option Nat
  | .publishing _ answer => answer.map Answer.dispatch
  | .registering _ _ held => some held.dispatch
  | .persisting _ held => some held.dispatch
  | _ => none

/-- A dispatch is answered by one lane, and no longer once its response has failed or has been
    reported; it is never both. -/
structure FateInv (dispatches : Nat) (phase : Lane → Phase) (persisted failed : List Nat) :
    Prop where
  fresh : ∀ l d, (phase l).answers = some d → d < dispatches
  apart : ∀ l l' d, (phase l).answers = some d → (phase l').answers = some d → l = l'
  done : ∀ d, d ∈ persisted ∨ d ∈ failed → d < dispatches ∧ ∀ l, (phase l).answers ≠ some d
  disjoint : ∀ d ∈ persisted, d ∉ failed

namespace FateInv

variable {dispatches : Nat} {persisted failed : List Nat}

section

variable (h : FateInv dispatches phase persisted failed)

include h

theorem enter (hp : p.answers = none ∨ p.answers = (phase l).answers) :
    FateInv dispatches (update phase l p) persisted failed := by
  have hsub : ∀ l' d, (update phase l p l').answers = some d → (phase l').answers = some d := by
    refine fun l' d => holds_of_update (·.answers = some ·) fun d hd => ?_
    rcases hp with hnone | hsame
    · cases hnone.symm.trans hd
    · rw [← hsame, hd]
  exact
    { fresh := fun l' d hd => h.fresh l' d (hsub l' d hd)
      apart := fun l₁ l₂ d h₁ h₂ => h.apart l₁ l₂ d (hsub l₁ d h₁) (hsub l₂ d h₂)
      done := fun d hd => ⟨(h.done d hd).1, fun l' hl' => (h.done d hd).2 l' (hsub l' d hl')⟩
      disjoint := h.disjoint }

/-- The response a lane was busy with fails or is reported, and the lane goes on without it. -/
theorem report {d : Nat}
    (hl : (phase l).answers = some d) (hp : p.answers = none) {persisted' failed' : List Nat}
    (hlog : (persisted' = persisted ++ [d] ∧ failed' = failed) ∨
      (persisted' = persisted ∧ failed' = failed ++ [d])) :
    FateInv dispatches (update phase l p) persisted' failed' := by
  have hnot : d ∉ persisted ∧ d ∉ failed :=
    ⟨fun hd => (h.done d (.inl hd)).2 l hl, fun hd => (h.done d (.inr hd)).2 l hl⟩
  have hlogged : ∀ d', d' ∈ persisted' ∨ d' ∈ failed' →
      (d' ∈ persisted ∨ d' ∈ failed) ∨ d' = d := by
    rcases hlog with ⟨rfl, rfl⟩ | ⟨rfl, rfl⟩ <;> simp <;> tauto
  have hbase := h.enter (l := l) (p := p) (.inl hp)
  refine ⟨hbase.fresh, hbase.apart, fun d' hd' => ?_, fun d' hd' => ?_⟩
  · rcases hlogged d' hd' with hold | rfl
    · exact hbase.done d' hold
    · refine ⟨h.fresh l _ hl, fun l' => ?_⟩
      exact not_holds_update (·.answers = some ·) h.apart hl (by simp [hp])
  rcases hlog with ⟨rfl, rfl⟩ | ⟨rfl, rfl⟩
  · rcases mem_append.mp hd' with hold | hnew
    · exact h.disjoint d' hold
    · rw [mem_singleton.mp hnew]
      exact hnot.2
  · intro hf
    rcases mem_append.mp hf with hold | hnew
    · exact h.disjoint d' hd' hold
    · rw [mem_singleton.mp hnew] at hd'
      exact hnot.1 hd'

theorem dispatch (hp : p.answers = some dispatches) :
    FateInv (dispatches + 1) (update phase l p) persisted failed := by
  have hone : ∀ d, p.answers = some d → d = dispatches := by simp [hp, eq_comm]
  have hsplit : ∀ l' d, (update phase l p l').answers = some d →
      (l' = l ∧ d = dispatches) ∨ (l' ≠ l ∧ (phase l').answers = some d) :=
    fun l' d => holds_of_update_one (·.answers = some ·) hone
  have hfree : ∀ l', l' ≠ l → (phase l').answers ≠ some dispatches :=
    fun l' _ hd => lt_irrefl _ (h.fresh l' _ hd)
  refine ⟨fun l' d hd => ?_, fun l₁ l₂ d => ?_, fun d hd => ?_, h.disjoint⟩
  · rcases hsplit l' d hd with ⟨_, rfl⟩ | ⟨_, hold⟩
    · exact lt_succ_self _
    · exact lt_succ_of_lt (h.fresh l' d hold)
  · exact apart_update (·.answers = some ·) h.apart hone hfree
  · obtain ⟨hlt, hdone⟩ := h.done d hd
    refine ⟨lt_succ_of_lt hlt, fun l' hl' => ?_⟩
    rcases hsplit l' d hl' with ⟨_, rfl⟩ | ⟨_, hl'⟩
    · exact lt_irrefl _ hlt
    · exact hdone l' hl'

end

theorem failPublication {answer : Option Answer}
    (h : FateInv s.dispatches s.phase s.persisted s.failed)
    (hq : s.phase l = .publishing id answer) (hp : p.answers = none) :
    FateInv s.dispatches (update s.phase l p) s.persisted
      (s.failPublication l id answer).failed := by
  cases answer with
  | none => exact h.enter (.inl hp)
  | some a => exact h.report (by rw [hq]; rfl) hp (.inr ⟨rfl, rfl⟩)

end FateInv

theorem Walk.answers_none (hw : Walk s l q p) : p.answers = none := by
  cases hw <;> rfl

theorem FateInv.step (h : FateInv s.dispatches s.phase s.persisted s.failed)
    (hstep : Section s e s') : FateInv s'.dispatches s'.phase s'.persisted s'.failed := by
  cases hstep with
  | walk l _ hq hw => exact h.enter (.inl hw.answers_none)
  | leased | readied | unlinked | freed => exact h.enter (.inl rfl)
  | dispatched l id principal result _ hq => exact h.dispatch rfl
  | unpublished _ _ _ _ hq | refused _ _ _ _ _ hq => simpa using h.failPublication hq rfl
  | unsynced l id answer size found he _ hq hsize hroom hnew =>
    simpa using h.failPublication (p := .ending (if found then none else some id)) hq rfl
  | published l id answer size _ hq hsize hroom hnew =>
    refine h.enter ?_
    rw [hq]
    match answer with
    | some ⟨principal, dispatch, some hooks⟩ => exact .inr rfl
    | some ⟨principal, dispatch, none⟩ => exact .inl rfl
    | none => exact .inl rfl
  | register l id principal held digest now _ hq => exact h.enter (.inr (by rw [hq]; rfl))
  | persist l id held _ hq =>
    simp only [persist]
    split
    · exact h.report (by rw [hq]; rfl) rfl (.inl ⟨rfl, rfl⟩)
    · exact h.enter (.inl rfl)
  | taken l id received reason _ hq ht hentry hheld => exact h.enter (.inl (by cases ht <;> rfl))
  | _ => exact h

/-! ## Runs -/

structure SettlementInv (s : State) : Prop where
  keep : KeepInv s.responses s.pending s.phase
  place : PlaceInv s
  close : CloseInv s
  fate : FateInv s.dispatches s.phase s.persisted s.failed

theorem SettlementInv.initial (responses : GoMap String ResponseFile) (budget : Option Budget) :
    SettlementInv (.initial responses budget) where
  keep := ⟨nofun, nofun, nofun⟩
  place := ⟨fun _ => rfl, nofun, nodup_nil⟩
  close := ⟨fun _ => ⟨rfl, rfl⟩, fun _ => ⟨rfl, rfl⟩, fun h => absurd rfl h, fun _ => rfl,
    fun h => by simp [State.initial] at h, fun _ => rfl, fun _ => rfl⟩
  fate := ⟨nofun, nofun, fun _ h => by simp [State.initial] at h, nofun⟩

theorem SettlementInv.step (h : SettlementInv s) (hstep : Section s e s') : SettlementInv s' where
  keep := h.keep.step hstep
  place := h.place.step h.keep (fun hc => h.close.early (.inr hc)) hstep
  close := h.close.step hstep
  fate := h.fate.step hstep

theorem settlementInv_exec {budget : Option Budget} {events : List Event}
    (hrun : exec step (.initial responses budget) events = some s) : SettlementInv s :=
  exec_invariant SettlementInv (fun _ _ _ h hstep => h.step (step_section hstep))
    (.initial responses budget) hrun

/-- **Exactly once.** In every run of the two lanes, the settlement goroutine and `Close`, whatever
    the dispatches return, the writes do and the clocks say: when `Close` has returned, `Settled`
    has run once for every dispatch that returned hooks with it, and at no time does it run a second
    time; and `ResponsePersisted` does not run for a response whose publication failed. -/
theorem settled_exactly_once (responses : GoMap String ResponseFile) (budget : Option Budget)
    (events : List Event) (s : State)
    (hrun : exec step (State.initial responses budget) events = some s) :
    (s.closing = .returned → ∀ d ∈ s.mandatory, s.settled.count d = 1) ∧
      (∀ d, s.settled.count d ≤ 1) ∧ ∀ d ∈ s.persisted, d ∉ s.failed := by
  have h := settlementInv_exec hrun
  refine ⟨fun hclosed d hd => ?_, fun d => ?_, h.fate.disjoint⟩
  · -- Nobody holds anything any more.
    have hplaces := h.place.places d
    obtain ⟨hslow, hpending⟩ := h.close.joined (by rw [hclosed]; nofun) (by rw [hclosed]; nofun)
    obtain ⟨hfast, hfastOwed⟩ := h.close.fastIdle (by rw [hclosed]; nofun)
    obtain ⟨hslowIdle, hslowOwed⟩ := h.close.slowIdle hslow
    have hsettler := h.close.settlerDone (h.close.late (.inr hclosed))
    have hcloser := h.close.returned hclosed
    simp only [places, overParties, overLanes, GoMap.total, hpending, hfast, hslowIdle,
      hfastOwed, hslowOwed, hsettler, hcloser, owedWeight_nil, Phase.weight, map_nil,
      sum_nil, add_zero] at hplaces
    rw [hplaces, count_eq_one_of_mem h.place.nodup hd]
  · have hplaces := h.place.places d
    have hone := nodup_iff_count_le_one.mp h.place.nodup d
    unfold places at hplaces
    omega

/-- A principal and hooks for runs on paper. -/
def somePrincipal : Principal := ⟨"k", "s", .session, 1⟩
def someHooks : ReceiptHooks := ⟨0, true, true⟩

/-- An operation in the fast lane whose receipt is never sent, one in the slow lane whose dispatch
    fails, and `Close`. -/
def closingRun : List Event :=
  [.claim .fast "a", .reserve .fast, .lease .fast false, .verify .fast (some somePrincipal),
    .claim .slow "b", .reserve .slow, .admits .fast,
    .dispatch .fast ⟨false, true, true, some someHooks⟩, .lease .slow false, .verify .slow
      (some somePrincipal), .admits .slow,
    .publish .fast (.write 100 .ok true), .register .fast "d" 0, .persist .fast,
    .dispatch .slow ⟨true, true, true, some someHooks⟩, .ready .fast 1, .finish .fast, .close,
    .settle (.lane .slow), .publish .slow (.write 100 .ok true), .finish .slow, .slowExit, .swap,
    .settlerExit, .joinSettler, .settle .closer, .closeReturn]

theorem settled_exactly_once_closingRun :
    ∃ s, exec step (State.initial ∅ none) closingRun = some s ∧ s.closing = .returned ∧
      s.settled.count 0 = 1 ∧ s.settled.count 1 = 1 ∧ 0 ∈ s.persisted ∧ 0 ∉ s.failed := by
  refine reaches_imp (P := fun s => s.closing = .returned ∧ 0 ∈ s.mandatory ∧ 1 ∈ s.mandatory ∧
    0 ∈ s.persisted) (by decide +kernel) ?_
  rintro s hs ⟨hclosed, h0, h1, hpersisted⟩
  obtain ⟨hsettled, _, hnever⟩ := settled_exactly_once ∅ none closingRun s hs
  exact ⟨hclosed, hsettled hclosed 0 h0, hsettled hclosed 1 h1, hpersisted, hnever 0 hpersisted⟩

end AgentMultiplexer.SessionRpc.Receipts
