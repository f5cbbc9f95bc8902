import AgentMultiplexer.Theory.Transition

set_option autoImplicit false

/-! # Generations of the central credential

The central Claude store is two files, the record with the secret and its generation and the marker
with the last generation handed out. Each is replaced by a rename, which a crash may undo until the
directory was synced. A save commits the marker first, so a generation that was once readable is
never above what the marker can fall back to. A deletion writes the generation of the record that
it removes into the marker, and this can take the marker back. -/

namespace AgentMultiplexer.CentralAuth

open List Transition

/-! ## Files replaced by rename -/

/-- What a read of the file finds (`none`: no such file) and what it may find after a crash
    instead. -/
structure File (α : Type) where
  visible : Option α
  older : List (Option α)

/-- How `writePrivateAtomic` ends: an error before its rename, an error after it, or `nil`. -/
inductive Write
  | refused | renamed | durable
  deriving DecidableEq

namespace File

variable {α : Type}

/-- Everything a read may find, now or after a crash. -/
def contents (f : File α) : List (Option α) := f.visible :: f.older

def replace (f : File α) (a : Option α) : Write → File α
  | .refused => f
  | .renamed => ⟨a, f.contents⟩
  | .durable => ⟨a, []⟩

theorem mem_contents_replace {f : File α} {a x : Option α} {w : Write}
    (h : x ∈ (f.replace a w).contents) : x ∈ f.contents ∨ x = a ∧ w ≠ .refused := by
  cases w with
  | refused => exact .inl h
  | renamed =>
    obtain rfl | h := mem_cons.mp h
    · exact .inr ⟨rfl, by decide⟩
    · exact .inl h
  | durable => exact .inr ⟨mem_singleton.mp h, by decide⟩

end File

/-! ## The store -/

/-- `Kind`; the Claude store takes both. -/
inductive Kind
  | claudeOAuthToken | claudeAPIKey
  deriving DecidableEq

/-- `Credential`, which is also what the record holds. -/
structure Credential (Secret : Type) where
  kind : Kind
  token : Secret
  generation : Nat
  deriving DecidableEq

/-- Why `Load` fails: no record, one that others have access to, or one that does not decode. -/
inductive LoadError
  | notConfigured | insecureStore | unreadable

/-- What stands in the record: a credential, or something that `read` refuses. -/
inductive Stored (Secret : Type)
  | credential (c : Credential Secret)
  | unusable (insecure : Bool)
  deriving DecidableEq

structure Store (Secret : Type) where
  marker : File Nat
  record : File (Stored Secret)

variable {Secret : Type}

def Store.empty : Store Secret := ⟨⟨none, []⟩, ⟨none, []⟩⟩

def Store.load (s : Store Secret) : Except LoadError (Credential Secret) :=
  match s.record.visible with
  | none => .error .notConfigured
  | some (.unusable insecure) => .error (if insecure then .insecureStore else .unreadable)
  | some (.credential c) => .ok c

/-- The generation after the prior record, or the clock in nanoseconds if that one is unusable. -/
def generationAfter (prior : Except LoadError (Credential Secret)) (now : Int) : Nat :=
  match prior with
  | .ok c => (c.generation + 1) % 2 ^ 64
  | .error .notConfigured => 1
  | .error _ => (now % 2 ^ 64).toNat

/-- The generation `SaveKind` settles on; `none` if the marker is used up. -/
def nextGeneration (prior : Except LoadError (Credential Secret)) (now : Int)
    (marker : Option Nat) : Option Nat :=
  let generation := generationAfter prior now
  match marker with
  | none => some generation
  | some n =>
    if n = 2 ^ 64 - 1 then none
    else if generation ≤ n then some (n + 1) else some generation

/-- `Store.SaveKind` (`none` is the empty secret), with the ends of its two writes; returns the
    stored credential unless it fails. -/
def Store.saveKind (s : Store Secret) (token : Option Secret) (kind : Kind) (now : Int)
    (marker record : Write) : Option (Credential Secret) × Store Secret :=
  match token with
  | none => (none, s)
  | some token =>
    match nextGeneration s.load now s.marker.visible with
    | none => (none, s)
    | some generation =>
      let s := { s with marker := s.marker.replace (some generation) marker }
      if marker ≠ .durable then (none, s)
      else
        let c : Credential Secret := ⟨kind, token, generation⟩
        let s := { s with record := s.record.replace (some (.credential c)) record }
        (if record = .durable then some c else none, s)

/-- `Store.Delete`; the removal of the record, when it succeeds, is not synced. Returns whether it
    reports success. -/
def Store.delete (s : Store Secret) (marker : Write) (removes : Bool) : Bool × Store Secret :=
  let remove (s : Store Secret) :=
    if removes then (true, { s with record := s.record.replace none .renamed }) else (false, s)
  match s.load with
  | .error _ => remove s
  | .ok c =>
    let s := { s with marker := s.marker.replace (some c.generation) marker }
    if marker ≠ .durable then (false, s) else remove s

/-- What happens to a store. A crash leaves each file with one of the contents it may have. -/
inductive Event (Secret : Type)
  | save (token : Option Secret) (kind : Kind) (now : Int) (marker record : Write)
  | delete (marker : Write) (removes : Bool)
  | crash (marker : Option Nat) (record : Option (Stored Secret))
  | corrupt (insecure : Bool)

def step [DecidableEq Secret] (s : Store Secret) : Event Secret → Option (Store Secret)
  | .save token kind now marker record => some (s.saveKind token kind now marker record).2
  | .delete marker removes => some (s.delete marker removes).2
  | .crash marker record =>
    if marker ∈ s.marker.contents ∧ record ∈ s.record.contents then
      some ⟨⟨marker, []⟩, ⟨record, []⟩⟩
    else none
  | .corrupt insecure =>
    some { s with record := { s.record with visible := some (.unusable insecure) } }

/-! ## Every generation names one secret -/

theorem Store.load_mem {s : Store Secret} {c : Credential Secret} (h : s.load = .ok c) :
    some (.credential c) ∈ s.record.contents := by
  rw [Store.load] at h
  split at h <;> cases h
  next hc => exact hc ▸ mem_cons_self

/-- `seen` holds what was ever readable: it includes all that may be readable, a generation in it
    names one secret, and the marker cannot fall below it. -/
structure Inv (seen : Set (Credential Secret)) (s : Store Secret) : Prop where
  readable : ∀ c, some (.credential c) ∈ s.record.contents → c ∈ seen
  one : ∀ c ∈ seen, ∀ c' ∈ seen, c.generation = c'.generation → c.token = c'.token
  below : ∀ c ∈ seen, ∀ m ∈ s.marker.contents, ∃ n, m = some n ∧ c.generation ≤ n

variable {seen : Set (Credential Secret)} {s s' : Store Secret}

/-- Writing a generation that nothing readable exceeds keeps the marker above all of it. -/
theorem Inv.mark (h : Inv seen s) {g : Nat} (hg : ∀ c ∈ seen, c.generation ≤ g) (w : Write) :
    Inv seen { s with marker := s.marker.replace (some g) w } where
  readable := h.readable
  one := h.one
  below := by
    intro c hc m hm
    obtain hm | ⟨rfl, -⟩ := File.mem_contents_replace hm
    · exact h.below c hc m hm
    · exact ⟨g, rfl, hg c hc⟩

theorem Inv.remove (h : Inv seen s) :
    Inv seen { s with record := s.record.replace none .renamed } where
  readable := by
    intro c hc
    obtain hc | ⟨hc, -⟩ := File.mem_contents_replace hc
    · exact h.readable c hc
    · cases hc
  one := h.one
  below := h.below

/-- A record of a generation above all that was readable, written when the marker is down. -/
theorem Inv.put (h : Inv seen s) {c : Credential Secret}
    (hc : ∀ c' ∈ seen, c'.generation < c.generation)
    (hmarker : s.marker = ⟨some c.generation, []⟩) (w : Write) :
    Inv (insert c seen) { s with record := s.record.replace (some (.credential c)) w } where
  readable := by
    intro c' hc'
    obtain hc' | ⟨hc', -⟩ := File.mem_contents_replace hc'
    · exact .inr (h.readable c' hc')
    · cases hc'
      exact .inl rfl
  one := by
    rintro c₁ (rfl | h₁) c₂ (rfl | h₂) heq
    · rfl
    · exact absurd heq (hc _ h₂).ne'
    · exact absurd heq (hc _ h₁).ne
    · exact h.one _ h₁ _ h₂ heq
  below := by
    intro c' hc' m hm
    obtain rfl : m = some c.generation := by simpa [hmarker, File.contents] using hm
    refine ⟨_, rfl, ?_⟩
    obtain rfl | hc' := hc'
    · exact le_rfl
    · exact (hc c' hc').le

theorem Inv.saveKind (h : Inv seen s) (token : Option Secret) (kind : Kind) (now : Int)
    (marker record : Write) :
    ∃ seen', seen ⊆ seen' ∧ Inv seen' (s.saveKind token kind now marker record).2 := by
  simp only [Store.saveKind]
  split
  · exact ⟨seen, le_rfl, h⟩
  next token =>
  split
  · exact ⟨seen, le_rfl, h⟩
  next g hg =>
  have hlt : ∀ c ∈ seen, c.generation < g := by
    intro c hc
    obtain ⟨n, hn, hle⟩ := h.below c hc _ mem_cons_self
    simp only [hn, nextGeneration] at hg
    split_ifs at hg <;> cases hg <;> omega
  have hmark := h.mark (fun c hc => (hlt c hc).le) marker
  split
  · exact ⟨seen, le_rfl, hmark⟩
  next hdurable =>
  cases not_not.mp hdurable
  exact ⟨insert _ seen, Set.subset_insert _ _, hmark.put (c := ⟨kind, token, g⟩) hlt rfl record⟩

/-- A deletion finds no marker above the record that it loads. -/
def deletesNewest (s : Store Secret) : Event Secret → Bool
  | .delete .. =>
    match s.load, s.marker.visible with
    | .ok c, some n => n ≤ c.generation
    | _, _ => true
  | _ => true

theorem Inv.delete (h : Inv seen s) {marker : Write} {removes : Bool}
    (hnew : deletesNewest s (.delete marker removes) = true) :
    Inv seen (s.delete marker removes).2 := by
  have hremove : ∀ {s : Store Secret}, Inv seen s →
      Inv seen (if removes then (true, { s with record := s.record.replace none .renamed })
        else (false, s)).2 := by
    intro s h
    split
    · exact h.remove
    · exact h
  simp only [Store.delete]
  split
  · exact hremove h
  next c hc =>
  have hmark : Inv seen { s with marker := s.marker.replace (some c.generation) marker } := by
    refine h.mark (fun c' hc' => ?_) marker
    obtain ⟨n, hn, hle⟩ := h.below c' hc' _ mem_cons_self
    simp only [deletesNewest, hc, hn, decide_eq_true_eq] at hnew
    exact hle.trans hnew
  split
  · exact hmark
  · exact hremove hmark

variable [DecidableEq Secret]

theorem Inv.step (h : Inv seen s) {e : Event Secret} (hnew : deletesNewest s e = true)
    (hstep : CentralAuth.step s e = some s') : ∃ seen', seen ⊆ seen' ∧ Inv seen' s' := by
  cases e with
  | save token kind now marker record =>
    cases hstep
    exact h.saveKind token kind now marker record
  | delete marker removes =>
    cases hstep
    exact ⟨seen, le_rfl, h.delete hnew⟩
  | crash marker record =>
    obtain ⟨⟨hm, hr⟩, rfl⟩ := by
      simpa only [CentralAuth.step, Option.ite_none_right_eq_some, Option.some.injEq] using hstep
    refine ⟨seen, le_rfl, fun c hc => ?_, h.one, fun c hc m hm' => ?_⟩
    · cases mem_singleton.mp hc
      exact h.readable c hr
    · cases mem_singleton.mp hm'
      exact h.below c hc _ hm
  | corrupt insecure =>
    cases hstep
    refine ⟨seen, le_rfl, fun c hc => h.readable c ?_, h.one, h.below⟩
    obtain hc | hc := mem_cons.mp hc
    · cases hc
    · exact mem_cons_of_mem _ hc

theorem Inv.exec (h : Inv seen s) {es : List (Event Secret)}
    (hnew : Along CentralAuth.step (fun s e => deletesNewest s e = true) s es)
    (hrun : exec CentralAuth.step s es = some s') : ∃ seen', seen ⊆ seen' ∧ Inv seen' s' := by
  refine exec_invariant_along _ (fun s => ∃ seen', seen ⊆ seen' ∧ Inv seen' s) ?_
    ⟨seen, le_rfl, h⟩ hnew hrun
  rintro s e s' ⟨seen₁, h₁, hinv⟩ hnew hstep
  obtain ⟨seen₂, h₂, hinv⟩ := hinv.step hnew hstep
  exact ⟨seen₂, h₁.trans h₂, hinv⟩

/-- **One secret per generation.** In a run in which every deletion finds the marker no higher than
    the record it loads, whatever the writes, crashes, corruptions and the clock do, two credentials
    that are readable at any two moments under one generation have one secret. -/
theorem generation_names_secret (es fs : List (Event Secret)) {s t : Store Secret}
    {c c' : Credential Secret} (hes : exec step .empty es = some s)
    (hes' : Along step (fun s e => deletesNewest s e = true) .empty es)
    (hfs : exec step s fs = some t) (hfs' : Along step (fun s e => deletesNewest s e = true) s fs)
    (hc : s.load = .ok c) (hc' : t.load = .ok c') (hgen : c.generation = c'.generation) :
    c.token = c'.token := by
  have hempty : Inv ∅ (.empty : Store Secret) :=
    ⟨fun c hc => (by cases mem_singleton.mp hc), fun c hc => absurd hc (Set.notMem_empty c),
      fun c hc => absurd hc (Set.notMem_empty c)⟩
  obtain ⟨seen, -, hs⟩ := hempty.exec hes' hes
  obtain ⟨seen', hsub, ht⟩ := hs.exec hfs' hfs
  have hmem : c ∈ seen' := hsub (hs.readable c (Store.load_mem hc))
  exact ht.one c hmem c' (ht.readable c' (Store.load_mem hc')) hgen

theorem generation_names_secret_after_undone_deletion :
    ∃ s, exec step .empty [.save (some "a") .claudeOAuthToken 0 .durable .durable] = some s ∧
    ∃ t, exec step s [.delete .durable true,
      .crash (some 1) (some (.credential ⟨.claudeOAuthToken, "a", 1⟩))] = some t ∧
    ∃ c, s.load = .ok c ∧ ∃ c', t.load = .ok c' ∧ c.generation = c'.generation ∧
      c.token = c'.token := by
  refine ⟨_, rfl, _, rfl, _, rfl, _, rfl, rfl, ?_⟩
  exact generation_names_secret [.save (some "a") .claudeOAuthToken 0 .durable .durable]
    [.delete .durable true, .crash (some 1) (some (.credential ⟨.claudeOAuthToken, "a", 1⟩))]
    rfl (.of_check (fun _ _ h => h) (by decide +kernel)) rfl
    (.of_check (fun _ _ h => h) (by decide +kernel)) rfl rfl rfl

/-- A crash undoes the record of generation 2 and keeps the marker; the deletion of the record
    before it takes the marker back to 1, and the next save hands out generation 2 again. -/
theorem deletion_repeats_generation :
    ∃ s, exec step .empty [.save (some "a") .claudeOAuthToken 0 .durable .durable,
      .save (some "b") .claudeOAuthToken 0 .durable .renamed] = some s ∧
    ∃ t, exec step s [.crash (some 2) (some (.credential ⟨.claudeOAuthToken, "a", 1⟩)),
      .delete .durable true,
      .save (some "c") .claudeOAuthToken 0 .durable .durable] = some t ∧
    ∃ c, s.load = .ok c ∧ ∃ c', t.load = .ok c' ∧ c.generation = c'.generation ∧
      c.token ≠ c'.token := by
  decide +kernel

end AgentMultiplexer.CentralAuth
