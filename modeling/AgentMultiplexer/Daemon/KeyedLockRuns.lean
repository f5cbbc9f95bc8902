import AgentMultiplexer.Daemon.KeyedLocks

set_option autoImplicit false

/-! # What the table of locks keeps

The invariant over all interleavings of the parts of the calls: every caller that is counted in at a
key points to the entry the table has for it, the count of that entry is the number of such callers
and is not zero, and the entry's mutex is held by the caller that got to it. A key therefore has one
entry for as long as anybody is inside a call that names it, and one holder. -/

namespace AgentMultiplexer.Daemon.KeyedLocks

open AList GoMap List LockCall Option

variable {l l' : KeyedLocks} {c d : Caller} {call : LockCall} {k k' : String} {p : Pointer}
  {e : KeyedLock}

/-- The callers counted in at a key. -/
def users (l : KeyedLocks) (key : String) : Finset Caller :=
  l.calls.keys.toFinset.filter fun c => (l.calls.lookup c).any fun call => key ∈ call.names

@[simp] theorem mem_users : c ∈ l.users k ↔ l.Uses c k := by
  rw [users, Finset.mem_filter, List.mem_toFinset, ← AList.mem_keys, Option.any_eq_true]
  simp only [decide_eq_true_eq]
  constructor
  · rintro ⟨-, call, hcall, hk⟩
    exact ⟨call, hcall, hk⟩
  · rintro ⟨call, hcall, hk⟩
    exact ⟨mem_of_lookup hcall, call, hcall, hk⟩

theorem Holds.uses (h : l.Holds c k) : l.Uses c k := by
  obtain ⟨call, hcall, hk⟩ := h
  exact ⟨call, hcall, map_subset _ (take_subset _ _) hk⟩

theorem uses_iff : l.Uses c k ↔ l.Holds c k ∨ l.Queued c k ∨ l.Departing c k := by
  have hsplit : ∀ call : LockCall, k ∈ call.names ↔
      k ∈ call.owned ∨ k ∈ (call.held.drop call.locked).map Prod.fst := by
    intro call
    rw [owned, names, ← mem_append, ← map_append, take_append_drop]
  constructor
  · rintro ⟨call, hcall, hk⟩
    rcases (hsplit call).mp hk with hk | hk
    · exact .inl ⟨call, hcall, hk⟩
    by_cases hphase : call.phase = .unlocking
    · exact .inr (.inr ⟨call, hcall, hphase, hk⟩)
    · exact .inr (.inl ⟨call, hcall, hphase, hk⟩)
  · rintro (⟨call, hcall, hk⟩ | ⟨call, hcall, -, hk⟩ | ⟨call, hcall, -, hk⟩)
    · exact ⟨call, hcall, (hsplit call).mpr (.inl hk)⟩
    · exact ⟨call, hcall, (hsplit call).mpr (.inr hk)⟩
    · exact ⟨call, hcall, (hsplit call).mpr (.inr hk)⟩

structure Inv (l : KeyedLocks) : Prop where
  ascending : ∀ {c call}, l.calls.lookup c = some call → call.names.Pairwise (· < ·)
  entry : ∀ {c call k p}, l.calls.lookup c = some call → (k, p) ∈ call.held →
    l.locks.lookup k = some p
  counted : ∀ {k p}, l.locks.lookup k = some p →
    ∃ e, l.heap.lookup p = some e ∧ e.refs = (l.users k).card
  used : ∀ {k p}, l.locks.lookup k = some p → (l.users k).Nonempty
  apart : ∀ {k k' p}, l.locks.lookup k = some p → l.locks.lookup k' = some p → k = k'
  fresh : ∀ {p e}, l.heap.lookup p = some e → p < l.next
  holder : ∀ {k p e c}, l.locks.lookup k = some p → l.heap.lookup p = some e →
    (e.holder = some c ↔ l.Holds c k)

theorem inv_empty : empty.Inv where
  ascending h := absurd h (by simp [empty])
  entry h := absurd h (by simp [empty])
  counted h := absurd h (by simp [empty])
  used h := absurd h (by simp [empty])
  apart h := absurd h (by simp [empty])
  fresh h := absurd h (by simp [empty])
  holder h := absurd h (by simp [empty])

/-! ## A caller's call rewritten -/

section calls

variable (hcalls : l'.calls = l.calls.insert c call)

include hcalls

theorem lookup_calls_of_insert :
    l'.calls.lookup d = if d = c then some call else l.calls.lookup d := by
  rw [hcalls, lookup_insert_ite]

theorem uses_of_insert : l'.Uses d k ↔ if d = c then k ∈ call.names else l.Uses d k := by
  simp only [Uses, lookup_calls_of_insert hcalls]
  split
  · simp only [some.injEq, exists_eq_left']
  · rfl

theorem holds_of_insert : l'.Holds d k ↔ if d = c then k ∈ call.owned else l.Holds d k := by
  simp only [Holds, lookup_calls_of_insert hcalls]
  split
  · simp only [some.injEq, exists_eq_left']
  · rfl

theorem users_of_insert (hk : l.Uses c k ↔ k ∈ call.names) : l'.users k = l.users k := by
  ext d
  rw [mem_users, mem_users, uses_of_insert hcalls]
  split
  next heq => rw [heq, hk]
  next => rfl

end calls

theorem Inv.locks_of_uses (h : l.Inv) (hu : l.Uses c k) : ∃ p, l.locks.lookup k = some p := by
  obtain ⟨call, hcall, hk⟩ := hu
  obtain ⟨⟨k', p⟩, hmem, rfl⟩ := mem_map.mp hk
  exact ⟨p, h.entry hcall hmem⟩

theorem Inv.users_of_notMem (h : l.Inv) (hk : l.locks.lookup k = none) : l.users k = ∅ := by
  refine Finset.eq_empty_of_forall_notMem fun d hd => ?_
  obtain ⟨p, hp⟩ := h.locks_of_uses (mem_users.mp hd)
  rw [hk] at hp
  cases hp

theorem uses_of_lookup (hcall : l.calls.lookup c = some call) : l.Uses c k ↔ k ∈ call.names := by
  simp [Uses, hcall]

theorem holds_of_lookup (hcall : l.calls.lookup c = some call) : l.Holds c k ↔ k ∈ call.owned := by
  simp [Holds, hcall]

theorem holds_of_unlocked {held : List (String × Pointer)}
    (hcalls : l'.calls = l.calls.insert c { call with held := held })
    (hcall : l.calls.lookup c = some call) (hlocked : call.locked = 0) :
    l'.Holds d k ↔ l.Holds d k := by
  rw [holds_of_insert hcalls]
  split
  next heq => simp [heq, holds_of_lookup hcall, owned, hlocked]
  next => rfl

/-! ## Steps at one key -/

/-- A caller's call rewritten, where the entry for a key is `p` and nothing else changes but that
    key and that cell: what is left to show is about them. -/
theorem Inv.of_key (h : l.Inv) (hcalls : l'.calls = l.calls.insert c call)
    (hasc : call.names.Pairwise (· < ·))
    (hentry : ∀ {k' q}, (k', q) ∈ call.held → l'.locks.lookup k' = some q)
    (hkept : ∀ {d call' q}, d ≠ c → l.calls.lookup d = some call' → (k, q) ∈ call'.held →
      l'.locks.lookup k = some q)
    (hothers : ∀ {k'}, k' ≠ k → l'.locks.lookup k' = l.locks.lookup k')
    (helse : ∀ {k'}, k' ≠ k → l.locks.lookup k' ≠ some p)
    (hcells : ∀ {q}, q ≠ p → l'.heap.lookup q = l.heap.lookup q)
    (husers : ∀ {k'}, k' ≠ k → (l.Uses c k' ↔ k' ∈ call.names))
    (hholds : ∀ {k' d}, k' ≠ k → (l'.Holds d k' ↔ l.Holds d k'))
    (hnext : l.next ≤ l'.next) (hp : p < l'.next)
    (hk : ∀ {q}, l'.locks.lookup k = some q → q = p ∧ ∃ e, l'.heap.lookup p = some e ∧
      e.refs = (l'.users k).card ∧ (l'.users k).Nonempty ∧
      ∀ d, e.holder = some d ↔ l'.Holds d k) : l'.Inv := by
  have hcell : ∀ {k' q}, k' ≠ k → l'.locks.lookup k' = some q →
      l.locks.lookup k' = some q ∧ l'.heap.lookup q = l.heap.lookup q := by
    intro k' q hne hq
    rw [hothers hne] at hq
    exact ⟨hq, hcells fun heq => helse hne (heq ▸ hq)⟩
  refine ⟨?_, ?_, ?_, ?_, ?_, ?_, ?_⟩
  · intro d call' hd
    rw [lookup_calls_of_insert hcalls] at hd
    split at hd
    · cases hd
      exact hasc
    · exact h.ascending hd
  · intro d call' k' q hd hmem
    rw [lookup_calls_of_insert hcalls] at hd
    split at hd
    · cases hd
      exact hentry hmem
    next hne =>
    by_cases hk' : k' = k
    · subst hk'
      exact hkept hne hd hmem
    · rw [hothers hk']
      exact h.entry hd hmem
  · intro k' q hq
    by_cases hk' : k' = k
    · subst hk'
      obtain ⟨rfl, e, he, hrefs, -⟩ := hk hq
      exact ⟨e, he, hrefs⟩
    · obtain ⟨hq', hheap⟩ := hcell hk' hq
      rw [hheap, users_of_insert hcalls (husers hk')]
      exact h.counted hq'
  · intro k' q hq
    by_cases hk' : k' = k
    · subst hk'
      obtain ⟨-, -, -, -, hne, -⟩ := hk hq
      exact hne
    · rw [users_of_insert hcalls (husers hk')]
      exact h.used (hcell hk' hq).1
  · intro k₁ k₂ q h₁ h₂
    by_cases hk₁ : k₁ = k <;> by_cases hk₂ : k₂ = k
    · rw [hk₁, hk₂]
    · subst hk₁
      exact absurd ((hk h₁).1 ▸ (hcell hk₂ h₂).1) (helse hk₂)
    · subst hk₂
      exact absurd ((hk h₂).1 ▸ (hcell hk₁ h₁).1) (helse hk₁)
    · exact h.apart (hcell hk₁ h₁).1 (hcell hk₂ h₂).1
  · intro q e' hq
    by_cases hqp : q = p
    · rw [hqp]
      exact hp
    · rw [hcells hqp] at hq
      exact lt_of_lt_of_le (h.fresh hq) hnext
  · intro k' q e' d hq he'
    by_cases hk' : k' = k
    · subst hk'
      obtain ⟨rfl, e, he, -, -, hholder⟩ := hk hq
      cases he.symm.trans he'
      exact hholder d
    · obtain ⟨hq', hheap⟩ := hcell hk' hq
      rw [hheap] at he'
      rw [h.holder hq' he', hholds hk']

/-- A caller's call rewritten or ended, and nothing else: it names and has locked what it did. -/
theorem Inv.recall (h : l.Inv) {calls : GoMap Caller LockCall} {o : Option LockCall}
    (hcalls : ∀ d, calls.lookup d = if d = c then o else l.calls.lookup d)
    (hasc : ∀ call, o = some call → call.names.Pairwise (· < ·))
    (hentry : ∀ call k p, o = some call → (k, p) ∈ call.held → l.locks.lookup k = some p)
    (huses : ∀ k, l.Uses c k ↔ ∃ call, o = some call ∧ k ∈ call.names)
    (hholds : ∀ k, l.Holds c k ↔ ∃ call, o = some call ∧ k ∈ call.owned) :
    ({ l with calls := calls } : KeyedLocks).Inv := by
  have husers : ∀ k, ({ l with calls := calls } : KeyedLocks).users k = l.users k := by
    intro k
    ext d
    simp only [mem_users, Uses, hcalls]
    split
    next heq => rw [heq]; exact (huses k).symm
    next => rfl
  refine ⟨fun {d call'} hd => ?_, fun {d call' k p} hd hmem => ?_, fun hp => ?_, fun hp => ?_,
    h.apart, h.fresh, fun {k p e d} hp he => ?_⟩
  · rw [hcalls] at hd
    split at hd
    · exact hasc call' hd
    · exact h.ascending hd
  · rw [hcalls] at hd
    split at hd
    · exact hentry call' k p hd hmem
    · exact h.entry hd hmem
  · rw [husers]
    exact h.counted hp
  · rw [husers]
    exact h.used hp
  · rw [h.holder hp he]
    simp only [Holds, hcalls]
    split
    next heq => rw [heq]; exact hholds k
    next => rfl

theorem Inv.setCall (h : l.Inv) (hasc : call.names.Pairwise (· < ·))
    (hentry : ∀ {k p}, (k, p) ∈ call.held → l.locks.lookup k = some p)
    (huses : ∀ {k}, l.Uses c k ↔ k ∈ call.names) (hholds : ∀ {k}, l.Holds c k ↔ k ∈ call.owned) :
    (l.setCall c call).Inv := by
  refine h.recall (c := c) (o := call) (fun d => lookup_insert_ite) ?_ ?_ ?_ ?_
  · rintro _ ⟨⟩
    exact hasc
  · rintro _ k p ⟨⟩
    exact hentry
  · simpa using fun k => huses
  · simpa using fun k => hholds

/-! ## Counting in -/

theorem modify_of_some {f : KeyedLock → KeyedLock} (he : l.heap.lookup p = some e) :
    l.modify p f = { l with heap := l.heap.insert p (f e) } := by
  rw [modify, he]

/-- What one round of the counting-in loop leaves: an entry for the key with one user more, and
    everything else as it was. -/
structure Refs (l l' : KeyedLocks) (c : Caller) (call : LockCall) (k : String) (p : Pointer)
    (e : KeyedLock) : Prop where
  calls : l'.calls = l.calls.insert c { call with held := call.held ++ [(k, p)] }
  locks : l'.locks.lookup k = some p
  others : ∀ {k'}, k' ≠ k → l'.locks.lookup k' = l.locks.lookup k'
  elsewhere : ∀ {k'}, k' ≠ k → l.locks.lookup k' ≠ some p
  heap : l'.heap.lookup p = some { e with refs := e.refs + 1 }
  cells : ∀ {q}, q ≠ p → l'.heap.lookup q = l.heap.lookup q
  refs : e.refs = (l.users k).card
  holder : ∀ {d}, e.holder = some d ↔ l.Holds d k
  kept : ∀ {q}, l.locks.lookup k = some q → q = p
  below : p < l'.next
  grows : l.next ≤ l'.next

theorem ref_refs (h : l.Inv) (hcall : l.calls.lookup c = some call) (k : String) :
    ∃ p e, Refs l (ref c l k) c call k p e := by
  cases hk : l.locks.lookup k with
  | some p =>
    obtain ⟨e, he, hrefs⟩ := h.counted hk
    have href : ref c l k = { l with
        heap := l.heap.insert p { e with refs := e.refs + 1 }
        calls := l.calls.insert c { call with held := call.held ++ [(k, p)] } } := by
      rw [ref, entryFor, hk]
      dsimp only
      rw [modify_of_some he]
      rw [hcall]
      rfl
    rw [href]
    refine ⟨p, e, rfl, hk, fun _ => rfl, fun hne hk' => hne (h.apart hk' hk), ?_, ?_, hrefs,
      h.holder hk he, ?_, h.fresh he, le_rfl⟩
    · exact lookup_insert _
    · exact fun hq => lookup_insert_ne hq
    intro q hq
    rw [hk] at hq
    cases hq
    rfl
  | none =>
    have href : ref c l k = { l with
        locks := l.locks.insert k l.next
        heap := (l.heap.insert l.next ⟨none, 0⟩).insert l.next ⟨none, 1⟩
        next := l.next + 1
        calls := l.calls.insert c { call with held := call.held ++ [(k, l.next)] } } := by
      rw [ref, entryFor, hk]
      dsimp only
      rw [modify_of_some (lookup_insert _)]
      rw [hcall]
      rfl
    rw [href]
    refine ⟨l.next, ⟨none, 0⟩, rfl, lookup_insert _, ?_, ?_, lookup_insert _, ?_, ?_,
      ?_, ?_, Nat.lt_succ_self _, Nat.le_succ _⟩
    · exact fun hne => lookup_insert_ne hne
    · intro k' _ hk'
      obtain ⟨e, he, -⟩ := h.counted hk'
      exact lt_irrefl _ (h.fresh he)
    · intro q hq
      rw [lookup_insert_ne hq, lookup_insert_ne hq]
    · rw [h.users_of_notMem hk]
      rfl
    · refine fun {d} => ⟨nofun, fun hd => ?_⟩
      obtain ⟨p, hp⟩ := h.locks_of_uses hd.uses
      rw [hk] at hp
      cases hp
    · intro q hq
      rw [hk] at hq
      cases hq

theorem names_append {held : List (String × Pointer)} :
    names { call with held := call.held ++ held } = call.names ++ held.map Prod.fst := by
  simp [names]

theorem Inv.ref (h : l.Inv) (hcall : l.calls.lookup c = some call) (hlocked : call.locked = 0)
    (hk : ∀ n ∈ call.names, n < k) {p : Pointer} {e : KeyedLock} (hr : Refs l l' c call k p e) :
    l'.Inv := by
  have hnew : k ∉ call.names := fun hmem => lt_irrefl _ (hk k hmem)
  have hmore : l'.users k = insert c (l.users k) := by
    ext d
    rw [Finset.mem_insert, mem_users, mem_users, uses_of_insert hr.calls, names_append]
    by_cases hd : d = c <;> simp [hd]
  have hnot : c ∉ l.users k := fun hc => hnew ((uses_of_lookup hcall).mp (mem_users.mp hc))
  refine h.of_key hr.calls ?_ ?_ ?_ hr.others hr.elsewhere hr.cells ?_
    (fun _ => holds_of_unlocked hr.calls hcall hlocked) hr.grows hr.below ?_
  · rw [names_append]
    exact pairwise_append.mpr ⟨h.ascending hcall, pairwise_singleton _ _,
      fun n hn m hm => by rw [mem_singleton.mp hm]; exact hk n hn⟩
  · intro k' q hmem
    rcases mem_append.mp hmem with hmem | hmem
    · have hne : k' ≠ k := fun heq => hnew (heq ▸ mem_map_of_mem hmem)
      rw [hr.others hne]
      exact h.entry hcall hmem
    · cases mem_singleton.mp hmem
      exact hr.locks
  · intro d call' q _ hd hmem
    rw [hr.kept (h.entry hd hmem)]
    exact hr.locks
  · intro k' hne
    rw [uses_of_lookup hcall, names_append]
    simp [hne]
  · intro q hq
    rw [hr.locks] at hq
    cases hq
    refine ⟨rfl, _, hr.heap, ?_, ?_, fun d => ?_⟩
    · rw [hmore, Finset.card_insert_of_notMem hnot, hr.refs]
    · rw [hmore]
      exact Finset.insert_nonempty _ _
    · exact hr.holder.trans (holds_of_unlocked hr.calls hcall hlocked).symm

/-- The counting-in loop: the call names what it named and the keys of the loop, in that order. -/
theorem Inv.foldl_ref {names : List String} (h : l.Inv) (hcall : l.calls.lookup c = some call)
    (hlocked : call.locked = 0) (hnames : (call.names ++ names).Pairwise (· < ·)) :
    (names.foldl (.ref c) l).Inv ∧
      (∃ held, (names.foldl (.ref c) l).calls.lookup c = some { call with held := held } ∧
        held.map Prod.fst = call.names ++ names) ∧
      ∀ d, d ≠ c → (names.foldl (.ref c) l).calls.lookup d = l.calls.lookup d := by
  induction names generalizing l call with
  | nil => exact ⟨h, ⟨call.held, hcall, (append_nil _).symm⟩, fun _ _ => rfl⟩
  | cons k rest ih =>
    obtain ⟨p, e, hr⟩ := ref_refs h hcall k
    have hlt : ∀ n ∈ call.names, n < k := fun n hn =>
      (pairwise_append.mp hnames).2.2 n hn k mem_cons_self
    have hself := lookup_calls_of_insert hr.calls (d := c)
    rw [if_pos rfl] at hself
    have hnames' : names { call with held := call.held ++ [(k, p)] } =
        call.names ++ [k] := names_append
    obtain ⟨hinv, ⟨held, hheld, hmap⟩, hothers⟩ :=
      ih (h.ref hcall hlocked hlt hr) hself hlocked (by
        rw [hnames', append_assoc]
        exact hnames)
    refine ⟨hinv, ⟨held, hheld, ?_⟩, fun d hd => ?_⟩
    · rw [hmap, hnames', append_assoc]
      rfl
    · rw [foldl_cons, hothers d hd, lookup_calls_of_insert hr.calls, if_neg hd]

variable {phase : LockPhase}

theorem Inv.refAll {names : List String} (h : l.Inv)
    (hnone : l.calls.lookup c = none) (hnames : names.Pairwise (· < ·)) :
    (l.refAll c names phase).Inv ∧
      (∃ held, (l.refAll c names phase).calls.lookup c = some ⟨held, 0, phase⟩ ∧
        held.map Prod.fst = names) ∧
      ∀ d, d ≠ c → (l.refAll c names phase).calls.lookup d = l.calls.lookup d := by
  have hcalls : (l.setCall c ⟨[], 0, phase⟩).calls = l.calls.insert c ⟨[], 0, phase⟩ := rfl
  have hinv : (l.setCall c ⟨[], 0, phase⟩).Inv :=
    h.setCall .nil (fun hmem => absurd hmem not_mem_nil)
      (by simp [Uses, hnone, LockCall.names]) (by simp [Holds, hnone, LockCall.owned])
  have hself := lookup_calls_of_insert hcalls (d := c)
  rw [if_pos rfl] at hself
  obtain ⟨hinv', hheld, hothers⟩ := hinv.foldl_ref hself rfl hnames
  refine ⟨hinv', hheld, fun d hd => ?_⟩
  rw [KeyedLocks.refAll, hothers d hd, lookup_calls_of_insert hcalls, if_neg hd]

theorem owned_succ {n : Nat} (hname : call.held[n]? = some (k, p)) :
    owned { call with locked := n + 1, phase := phase } =
      owned { call with locked := n, phase := phase } ++ [k] := by
  simp [owned, take_add_one, hname]

theorem Inv.free (h : l.Inv) (hp : l.locks.lookup k = some p) (he : l.heap.lookup p = some e)
    (hfree : e.holder = none) (d : Caller) : ¬ l.Holds d k := by
  intro hd
  rw [← h.holder hp he, hfree] at hd
  cases hd

section caller

variable (h : l.Inv) (hcall : l.calls.lookup c = some call)

include h hcall

/-! ## Locking and unlocking the entries -/

/-- A step that moves a caller along its entries: it changes who holds one mutex, and no count. -/
theorem Inv.relock {call' : LockCall} {o : Option Caller} (hheld : call'.held = call.held)
    (hmem : (k, p) ∈ call.held) (he : l.heap.lookup p = some e)
    (howned : ∀ {k'}, k' ≠ k → (k' ∈ call.owned ↔ k' ∈ call'.owned))
    (hholder : ∀ d, o = some d ↔ if d = c then k ∈ call'.owned else l.Holds d k) :
    ((l.modify p fun e => { e with holder := o }).setCall c call').Inv := by
  have hp := h.entry hcall hmem
  have hnames : call'.names = call.names := by rw [names, hheld, names]
  rw [modify_of_some he]
  have hcalls : (KeyedLocks.setCall { l with heap := l.heap.insert p { e with holder := o } } c
      call').calls = l.calls.insert c call' := rfl
  have huses : ∀ {j}, l.Uses c j ↔ j ∈ call'.names := by
    rw [hnames]
    exact uses_of_lookup hcall
  refine h.of_key hcalls (hnames ▸ h.ascending hcall) (fun hq => h.entry hcall (hheld ▸ hq))
    (fun _ hd => h.entry hd) (fun _ => rfl) (fun hne hk' => hne (h.apart hk' hp))
    (fun hq => lookup_insert_ne hq) (fun _ => huses)
    (fun {k' d} hne => ?_) le_rfl (h.fresh he) ?_
  · rw [holds_of_insert hcalls]
    split
    next heq => rw [heq, holds_of_lookup hcall, howned hne]
    next => rfl
  intro q hq
  obtain rfl : q = p := mem_unique hq hp
  refine ⟨rfl, _, lookup_insert _, ?_, ?_, fun d => ?_⟩
  · obtain ⟨e', he', hcard⟩ := h.counted hp
    cases he.symm.trans he'
    rw [users_of_insert hcalls huses]
    exact hcard
  · rw [users_of_insert hcalls huses]
    exact h.used hp
  · rw [holds_of_insert hcalls]
    exact hholder d

theorem Inv.notMem_owned {n : Nat} (hname : call.held[n]? = some (k, p)) :
    k ∉ owned { call with locked := n, phase := phase } := by
  intro hmem
  have hsub : (call.names.take (n + 1)).Pairwise (· < ·) :=
    (h.ascending hcall).sublist (take_sublist _ _)
  have hnth : call.names[n]? = some k := by simp [names, hname]
  rw [take_add_one, hnth] at hsub
  have hmem' : k ∈ call.names.take n := by rwa [names, ← map_take]
  exact lt_irrefl _ ((pairwise_append.mp hsub).2.2 k hmem' k (mem_singleton.mpr rfl))

theorem Inv.acquire (hname : call.held[call.locked]? = some (k, p))
    (he : l.heap.lookup p = some e) (hfree : e.holder = none) :
    ((l.modify p fun e => { e with holder := some c }).setCall c
      { call with locked := call.locked + 1, phase := phase }).Inv := by
  have hmem := mem_of_getElem? hname
  have howned : ∀ j, j ∈ owned { call with locked := call.locked + 1, phase := phase } ↔
      j ∈ call.owned ∨ j = k := by
    intro j
    rw [owned_succ hname, mem_append, mem_singleton]
    rfl
  refine h.relock hcall rfl hmem he (fun hne => by simp [howned, hne]) fun d => ?_
  have hnobody := h.free (h.entry hcall hmem) he hfree d
  by_cases hd : d = c
  · simp [hd, howned]
  · simp [hd, hnobody, Ne.symm hd]

theorem Inv.release {n : Nat} (hn : call.locked = n + 1) (hname : call.held[n]? = some (k, p)) :
    ((l.modify p fun e => { e with holder := none }).setCall c { call with locked := n }).Inv := by
  have hmem := mem_of_getElem? hname
  have hp := h.entry hcall hmem
  obtain ⟨e, he, -⟩ := h.counted hp
  have howned : call.owned = owned { call with locked := n } ++ [k] := by
    rw [← owned_succ hname, ← hn]
  have hmine : e.holder = some c := (h.holder hp he).mpr ⟨call, hcall, by rw [howned]; simp⟩
  refine h.relock hcall rfl hmem he (fun hne => by simp [howned, hne]) fun d => ?_
  by_cases hd : d = c
  · simpa [hd] using h.notMem_owned hcall hname
  · simp [hd, ← h.holder hp he, hmine, Ne.symm hd]

theorem Inv.rephase : (l.setCall c { call with phase := phase }).Inv := by
  have hasc := h.ascending hcall
  refine h.setCall hasc (fun hmem => ?_) (fun {k} => ?_) fun {k} => ?_
  · exact h.entry hcall hmem
  · rw [uses_of_lookup hcall]
    rfl
  · rw [holds_of_lookup hcall]
    rfl

/-! ## Counting out -/

/-- One round of the counting-out loop, over a call that has unlocked everything. -/
theorem Inv.unref {rest : List (String × Pointer)} (hlocked : call.locked = 0)
    (hheld : call.held = (k, p) :: rest) : (KeyedLocks.unref c l (k, p)).Inv ∧
      (KeyedLocks.unref c l (k, p)).calls = l.calls.insert c { call with held := rest } := by
  have hp : l.locks.lookup k = some p := h.entry hcall (by rw [hheld]; exact mem_cons_self)
  obtain ⟨e, he, hcard⟩ := h.counted hp
  have hnames : call.names = k :: rest.map Prod.fst := by rw [names, hheld]; rfl
  have hk : k ∉ rest.map Prod.fst := by
    have hasc := h.ascending hcall
    rw [hnames] at hasc
    exact fun hmem => lt_irrefl _ ((pairwise_cons.mp hasc).1 k hmem)
  have hmine : c ∈ l.users k := mem_users.mpr ⟨call, hcall, by rw [hnames]; simp⟩
  have hrest : ({ call with held := call.held.tail } : LockCall) = { call with held := rest } := by
    rw [hheld]
    rfl
  simp only [KeyedLocks.unref, hcall, he, hrest]
  refine ⟨?_, trivial⟩
  set l' : KeyedLocks := { l with
    heap := l.heap.insert p { e with refs := e.refs - 1 }
    locks := if e.refs - 1 = 0 then l.locks.erase k else l.locks
    calls := l.calls.insert c { call with held := rest } }
  have hcalls : l'.calls = l.calls.insert c { call with held := rest } := rfl
  have hlocks : ∀ {k'}, l'.locks.lookup k' =
      if k' = k ∧ e.refs - 1 = 0 then none else l.locks.lookup k' := by
    dsimp only [l']
    split
    next hzero => simp [lookup_erase_ite, hzero]
    next hzero => simp [hzero]
  have hfewer : l'.users k = (l.users k).erase c := by
    ext d
    rw [Finset.mem_erase, mem_users, mem_users, uses_of_insert hcalls]
    by_cases hd : d = c
    · simpa [hd, names] using hk
    · simp [hd]
  refine h.of_key hcalls ?_ ?_ ?_ (fun hne => by simp [hlocks, hne])
    (fun hne hk' => hne (h.apart hk' hp)) (fun hq => lookup_insert_ne hq) ?_
    (fun _ => holds_of_unlocked hcalls hcall hlocked) le_rfl (h.fresh he) ?_
  · have hasc := h.ascending hcall
    rw [hnames] at hasc
    exact (pairwise_cons.mp hasc).2
  · intro k' q hmem
    have hne : k' ≠ k := fun heq => hk (heq ▸ mem_map_of_mem hmem)
    rw [hlocks, if_neg (fun hc => hne hc.1)]
    exact h.entry hcall (by rw [hheld]; exact mem_cons_of_mem _ hmem)
  · -- another caller is counted in, so the count does not reach zero
    intro d call' q hd hcall' hmem
    have hother : d ∈ l.users k := mem_users.mpr ⟨call', hcall', mem_map_of_mem hmem⟩
    have htwo : 1 < (l.users k).card := Finset.one_lt_card.mpr ⟨d, hother, c, hmine, hd⟩
    rw [hlocks, if_neg (fun hc => by omega)]
    exact h.entry hcall' hmem
  · intro k' hne
    rw [uses_of_lookup hcall, hnames, names, mem_cons]
    exact or_iff_right hne
  intro q hq
  rw [hlocks] at hq
  split_ifs at hq with hpos
  rw [eq_self, true_and] at hpos
  obtain rfl : q = p := mem_unique hq hp
  refine ⟨rfl, { e with refs := e.refs - 1 }, lookup_insert _, ?_, ?_, fun d => ?_⟩
  · rw [hfewer, Finset.card_erase_of_mem hmine, hcard]
  · rw [hfewer, ← Finset.card_pos, Finset.card_erase_of_mem hmine]
    omega
  · exact (h.holder hp he).trans (holds_of_unlocked hcalls hcall hlocked).symm

theorem Inv.foldl_unref (hlocked : call.locked = 0) : (call.held.foldl (.unref c) l).Inv ∧
      (call.held.foldl (.unref c) l).calls.lookup c = some { call with held := [] } ∧
      ∀ d, d ≠ c → (call.held.foldl (.unref c) l).calls.lookup d = l.calls.lookup d := by
  generalize hheld : call.held = held
  induction held generalizing l call with
  | nil => exact ⟨h, by rw [foldl_nil, hcall, ← hheld], fun _ _ => rfl⟩
  | cons name rest ih =>
    obtain ⟨hinv, hcalls⟩ := h.unref hcall hlocked hheld
    have hself := lookup_calls_of_insert hcalls (d := c)
    rw [if_pos rfl] at hself
    obtain ⟨hinv', hnil, hothers⟩ := ih hinv hself hlocked rfl
    refine ⟨hinv', hnil, fun d hd => ?_⟩
    rw [foldl_cons, hothers d hd, lookup_calls_of_insert hcalls, if_neg hd]

theorem Inv.unrefAll (hlocked : call.locked = 0) : (l.unrefAll c call.held).Inv ∧
      ∀ d, (l.unrefAll c call.held).calls.lookup d = if d = c then none else l.calls.lookup d := by
  obtain ⟨hinv, hnil, hothers⟩ := h.foldl_unref hcall hlocked
  simp only [KeyedLocks.unrefAll]
  generalize call.held.foldl (.unref c) l = m at hinv hnil hothers
  refine ⟨hinv.recall (c := c) (o := none) (fun d => lookup_erase_ite) nofun nofun ?_ ?_,
    fun d => ?_⟩
  · simp [Uses, hnil, names]
  · simp [Holds, hnil, owned]
  · rw [lookup_erase_ite]
    split
    · rfl
    next hd => exact hothers d hd

end caller

/-! ## Steps and runs -/

def Event.caller : Event → Caller
  | .lock c _ | .tryLock c _ | .acquire c | .attempt c | .unlock c | .release c | .drop c => c

/-- What an event does to its caller's call. -/
inductive CallMove (l : KeyedLocks) (c : Caller) : Event → Option LockCall → Option LockCall → Prop
  | lock {keys held} (hnames : held.map Prod.fst = lockNames keys) :
      CallMove l c (.lock c keys) none (some ⟨held, 0, .locking⟩)
  | tryLock {key held} (hnames : held.map Prod.fst = [key]) :
      CallMove l c (.tryLock c key) none (some ⟨held, 0, .trying⟩)
  | acquire {call : LockCall} {k p} (hphase : call.phase = .locking)
      (hname : call.held[call.locked]? = some (k, p)) (hfree : ∀ d, ¬ l.Holds d k) :
      CallMove l c (.acquire c) (some call) (some { call with locked := call.locked + 1 })
  | attempt {call : LockCall} {k p} (hphase : call.phase = .trying)
      (hname : call.held[call.locked]? = some (k, p)) (hfree : ∀ d, ¬ l.Holds d k) :
      CallMove l c (.attempt c) (some call)
        (some { call with locked := call.locked + 1, phase := .locking })
  | refuse {call : LockCall} (hphase : call.phase = .trying) :
      CallMove l c (.attempt c) (some call) (some { call with phase := .unlocking })
  | unlock {call : LockCall} (hphase : call.phase = .locking)
      (hall : call.locked = call.held.length) :
      CallMove l c (.unlock c) (some call) (some { call with phase := .unlocking })
  | release {call : LockCall} {n k p} (hphase : call.phase = .unlocking)
      (hlocked : call.locked = n + 1) (hname : call.held[n]? = some (k, p)) :
      CallMove l c (.release c) (some call) (some { call with locked := n })
  | drop {call : LockCall} (hphase : call.phase = .unlocking) (hlocked : call.locked = 0) :
      CallMove l c (.drop c) (some call) none

theorem calls_setCall_modify {f : KeyedLock → KeyedLock} :
    ((l.modify p f).setCall c call).calls = l.calls.insert c call := by
  rw [setCall, modify]
  split <;> rfl

theorem Inv.moved {ev : Event} (hinv : l'.Inv) (hcall : l.calls.lookup ev.caller = some call)
    {call' : LockCall} (hcalls : l'.calls = l.calls.insert ev.caller call')
    (hmove : CallMove l ev.caller ev (some call) (some call')) :
    l'.Inv ∧ CallMove l ev.caller ev (l.calls.lookup ev.caller) (l'.calls.lookup ev.caller) ∧
      ∀ d, d ≠ ev.caller → l'.calls.lookup d = l.calls.lookup d := by
  rw [hcall, lookup_calls_of_insert hcalls, if_pos rfl]
  exact ⟨hinv, hmove, fun d hd => by rw [lookup_calls_of_insert hcalls, if_neg hd]⟩

/-- **A step of the table**: it keeps the invariant, moves one caller's call and no other's. -/
theorem Inv.step {ev : Event} (h : l.Inv) (hstep : l.step ev = some l') :
    l'.Inv ∧ CallMove l ev.caller ev (l.calls.lookup ev.caller) (l'.calls.lookup ev.caller) ∧
      ∀ d, d ≠ ev.caller → l'.calls.lookup d = l.calls.lookup d := by
  cases ev with
    simp only [KeyedLocks.step, bind_eq_bind, bind_eq_some_iff] at hstep
  | lock c keys =>
    split at hstep
    · cases hstep
    next hnone =>
    cases hstep
    obtain ⟨hinv, ⟨held, hcall, hnames⟩, hothers⟩ := h.refAll hnone (pairwise_lockNames keys)
    refine ⟨hinv, ?_, hothers⟩
    simp only [Event.caller]
    rw [hnone, hcall]
    exact .lock hnames
  | tryLock c key =>
    split at hstep
    · cases hstep
    next hnone =>
    cases hstep
    obtain ⟨hinv, ⟨held, hcall, hnames⟩, hothers⟩ :=
      h.refAll hnone (pairwise_singleton _ key)
    refine ⟨hinv, ?_, hothers⟩
    simp only [Event.caller]
    rw [hnone, hcall]
    exact .tryLock hnames
  | acquire c =>
    obtain ⟨call, hcall, ⟨k, p⟩, hname, e, he, hstep⟩ := hstep
    split_ifs at hstep with hcond
    cases hstep
    have hp := h.entry hcall (mem_of_getElem? hname)
    exact (h.acquire hcall hname he hcond.2).moved hcall calls_setCall_modify
      (.acquire hcond.1 hname (h.free hp he hcond.2))
  | attempt c =>
    obtain ⟨call, hcall, ⟨k, p⟩, hname, e, he, hstep⟩ := hstep
    split at hstep
    · cases hstep
    next hphase =>
    rw [not_not] at hphase
    split at hstep
    next hfree =>
      cases hstep
      have hp := h.entry hcall (mem_of_getElem? hname)
      exact (h.acquire hcall hname he hfree).moved hcall calls_setCall_modify
        (.attempt hphase hname (h.free hp he hfree))
    · cases hstep
      exact (h.rephase hcall).moved hcall rfl (.refuse hphase)
  | unlock c =>
    obtain ⟨call, hcall, hstep⟩ := hstep
    split_ifs at hstep with hcond
    cases hstep
    exact (h.rephase hcall).moved hcall rfl (.unlock hcond.1 hcond.2)
  | release c =>
    obtain ⟨call, hcall, hstep⟩ := hstep
    split at hstep
    next n hphase hlocked =>
      obtain ⟨⟨k, p⟩, hname, hstep⟩ := bind_eq_some_iff.mp hstep
      cases hstep
      exact (h.release hcall hlocked hname).moved hcall calls_setCall_modify
        (.release hphase hlocked hname)
    · cases hstep
  | drop c =>
    obtain ⟨call, hcall, hstep⟩ := hstep
    split_ifs at hstep with hcond
    cases hstep
    obtain ⟨hinv, hcalls⟩ := h.unrefAll hcall hcond.2
    refine ⟨hinv, ?_, fun d hd => ?_⟩
    · simp only [Event.caller]
      rw [hcall, hcalls, if_pos rfl]
      exact .drop hcond.1 hcond.2
    · rw [hcalls]
      exact if_neg hd

/-- **Exclusion.** A key has at most one holder. -/
theorem Inv.exclusive (h : l.Inv) (hc : l.Holds c k) (hd : l.Holds d k) : c = d := by
  obtain ⟨p, hp⟩ := h.locks_of_uses hc.uses
  obtain ⟨e, he, -⟩ := h.counted hp
  have hc' := (h.holder hp he).mpr hc
  rw [(h.holder hp he).mpr hd] at hc'
  exact (some.inj hc').symm

theorem Inv.locks_iff (h : l.Inv) : (∃ p, l.locks.lookup k = some p) ↔
    ∃ c, l.Holds c k ∨ l.Queued c k ∨ l.Departing c k := by
  constructor
  · rintro ⟨p, hp⟩
    obtain ⟨c, hc⟩ := h.used hp
    exact ⟨c, uses_iff.mp (mem_users.mp hc)⟩
  · rintro ⟨c, hc⟩
    exact h.locks_of_uses (uses_iff.mpr hc)

/-- A caller that waits for a key has locked only entries of smaller keys. -/
theorem Inv.holds_lt (h : l.Inv) (hw : l.WaitsFor c k) (hh : l.Holds c k') : k' < k := by
  obtain ⟨call, hcall, -, hk⟩ := hw
  obtain ⟨call', hcall', hk'⟩ := hh
  rw [hcall] at hcall'
  cases hcall'
  have hasc := h.ascending hcall
  rw [← take_append_drop call.locked call.names] at hasc
  refine (pairwise_append.mp hasc).2.2 k' ?_ k ?_
  · rwa [names, ← map_take]
  · obtain ⟨hlt, rfl⟩ := List.getElem?_eq_some_iff.mp hk
    exact mem_drop_iff_getElem.mpr ⟨0, by simpa using hlt, by simp⟩

theorem inv_exec {events : List Event} (h : Transition.exec step empty events = some l) : l.Inv :=
  Transition.exec_invariant Inv (fun _ _ _ hinv hstep => (hinv.step hstep).1) inv_empty h

end AgentMultiplexer.Daemon.KeyedLocks
