import Mathlib.Algebra.Order.Ring.Nat

set_option autoImplicit false

/-! # Deterministic transition machines

A machine is a partial step function `step : σ → ε → Option σ`: the event carries every choice the
environment makes (a clock reading, the outcome of a file operation, which thread moves), and
`none` says the event is not enabled in that state. Concurrency is interleaving: the events of a
run are the atomic sections of all threads in the order they happen. Because the step is a
function, a concrete run is evaluated; because the event list is arbitrary, a statement about
`exec` is a statement about every interleaving.

The rules below are the induction principles of the development: an invariant of every step is an
invariant of every run, the same under a condition each step of the run has to meet, and a
preorder that every step climbs is climbed by every run. -/

namespace Transition

variable {σ ε : Type*} (step : σ → ε → Option σ)

/-- Run a list of events from a state. -/
def exec : σ → List ε → Option σ
  | s, [] => some s
  | s, e :: es => (step s e).bind fun s' => exec s' es

variable {step} {s t : σ} {e : ε} {es : List ε}

@[simp] theorem exec_nil : exec step s [] = some s := rfl

theorem exec_cons : exec step s (e :: es) = (step s e).bind fun s' => exec step s' es := rfl

theorem exec_cons_eq_some :
    exec step s (e :: es) = some t ↔ ∃ m, step s e = some m ∧ exec step m es = some t := by
  rw [exec_cons, Option.bind_eq_some_iff]

theorem exec_append (es fs : List ε) (s : σ) :
    exec step s (es ++ fs) = (exec step s es).bind fun m => exec step m fs := by
  induction es generalizing s with
  | nil => rfl
  | cons e es ih =>
    rw [List.cons_append, exec_cons, exec_cons, Option.bind_assoc]
    congr 1
    funext m
    exact ih m

theorem exec_append_eq_some {fs : List ε} :
    exec step s (es ++ fs) = some t ↔ ∃ m, exec step s es = some m ∧ exec step m fs = some t := by
  rw [exec_append, Option.bind_eq_some_iff]

/-- Every step of the run meets `P`, a condition on the state before the step and the event. -/
def Along (step : σ → ε → Option σ) (P : σ → ε → Prop) : σ → List ε → Prop
  | _, [] => True
  | s, e :: es => P s e ∧ ∀ m, step s e = some m → Along step P m es

variable {P : σ → ε → Prop}

theorem Along.cons {m : σ} (hP : P s e) (h : step s e = some m)
    (hrest : Along step P m es) : Along step P s (e :: es) := by
  refine ⟨hP, fun m' hm' => ?_⟩
  rw [h, Option.some.injEq] at hm'
  exact hm' ▸ hrest

theorem Along.append {fs : List ε} (h : Along step P s es)
    (hrun : exec step s es = some t) (h' : Along step P t fs) : Along step P s (es ++ fs) := by
  induction es generalizing s with
  | nil =>
    cases hrun
    exact h'
  | cons e es ih =>
    obtain ⟨m, hm, ht⟩ := exec_cons_eq_some.mp hrun
    exact .cons h.1 hm (ih (h.2 m hm) ht)

/-- The test `q` passes at every step of the run. -/
def check (step : σ → ε → Option σ) (q : σ → ε → Bool) : σ → List ε → Bool
  | _, [] => true
  | s, e :: es => q s e && (step s e).all fun m => check step q m es

/-- A condition that a computable test implies is established for a concrete run by evaluation. -/
theorem Along.of_check {q : σ → ε → Bool} (hq : ∀ s e, q s e = true → P s e)
    (h : check step q s es = true) : Along step P s es := by
  induction es generalizing s with
  | nil => trivial
  | cons e es ih =>
    rw [check, Bool.and_eq_true] at h
    refine ⟨hq s e h.1, fun m hm => ih ?_⟩
    simpa only [hm, Option.all_some] using h.2

theorem Along.of_forall {P : ε → Prop} (h : ∀ e ∈ es, P e) : Along step (fun _ e => P e) s es := by
  induction es generalizing s with
  | nil => trivial
  | cons e es ih =>
    obtain ⟨he, hes⟩ := List.forall_mem_cons.mp h
    exact ⟨he, fun m _ => ih hes⟩

theorem Along.and {Q : σ → ε → Prop} (hP : Along step P s es) (hQ : Along step Q s es) :
    Along step (fun s e => P s e ∧ Q s e) s es := by
  induction es generalizing s with
  | nil => trivial
  | cons e es ih => exact ⟨⟨hP.1, hQ.1⟩, fun m hm => ih (hP.2 m hm) (hQ.2 m hm)⟩

/-- A condition that follows from another one in invariant states holds along the same runs. -/
theorem Along.of_invariant {Q : σ → ε → Prop} (Inv : σ → Prop) (hP : ∀ s e, Inv s → Q s e → P s e)
    (hstep : ∀ s e s', Inv s → Q s e → step s e = some s' → Inv s') (hs : Inv s)
    (hQ : Along step Q s es) : Along step P s es := by
  induction es generalizing s with
  | nil => trivial
  | cons e es ih =>
    exact ⟨hP s e hs hQ.1, fun m hm => ih (hstep s e m hs hQ.1 hm) (hQ.2 m hm)⟩

/-- **Conditional invariant rule.** What every step that meets `P` preserves, every run whose
    steps all meet `P` preserves. -/
theorem exec_invariant_along (P : σ → ε → Prop) (Inv : σ → Prop)
    (hstep : ∀ s e s', Inv s → P s e → step s e = some s' → Inv s')
    (hs : Inv s) (hP : Along step P s es) (h : exec step s es = some t) : Inv t := by
  induction es generalizing s with
  | nil =>
    cases h
    exact hs
  | cons e es ih =>
    obtain ⟨m, hm, ht⟩ := exec_cons_eq_some.mp h
    exact ih (hstep s e m hs hP.1 hm) (hP.2 m hm) ht

/-- **Invariant rule.** What every step preserves, every run preserves. -/
theorem exec_invariant (Inv : σ → Prop) (hstep : ∀ s e s', Inv s → step s e = some s' → Inv s')
    (hs : Inv s) (h : exec step s es = some t) : Inv t :=
  exec_invariant_along (fun _ _ => True) Inv (fun s e s' hinv _ => hstep s e s' hinv) hs
    (.of_forall fun _ _ => trivial) h

/-- **Monotonicity rule.** A preorder that every step out of an invariant state climbs relates the
    two ends of every run. -/
theorem exec_related (Inv : σ → Prop) (R : σ → σ → Prop)
    (hrefl : ∀ s, R s s) (htrans : ∀ a b c, R a b → R b c → R a c)
    (hinv : ∀ s e s', Inv s → step s e = some s' → Inv s')
    (hstep : ∀ s e s', Inv s → step s e = some s' → R s s')
    (hs : Inv s) (h : exec step s es = some t) : R s t := by
  refine (exec_invariant (fun t => Inv t ∧ R s t) ?_ ⟨hs, hrefl s⟩ h).2
  rintro a e b ⟨ha, hra⟩ hab
  exact ⟨hinv a e b ha hab, htrans s a b hra (hstep a e b ha hab)⟩

/-! ## Results that may be errors -/

section Results

variable {κ α β : Type*} {result : Except κ α}

theorem map_eq_ok {f : α → β} {b : β} (h : result.map f = .ok b) : ∃ a, result = .ok a ∧ f a = b := by
  cases result with
  | error err => cases h
  | ok a => exact ⟨a, rfl, Except.ok.inj h⟩

theorem error_ne_of_eq {err bad : κ} (h : result ≠ .error bad) (herr : result = .error err) :
    (.error err : Except κ β) ≠ .error bad := by
  rintro heq
  cases heq
  exact h herr

theorem map_ne_error {bad : κ} (f : α → β) (h : result ≠ .error bad) :
    result.map f ≠ .error bad := by
  cases result with
  | error err => exact error_ne_of_eq h rfl
  | ok value => simp [Except.map]

end Results

/-! ## Evaluated runs -/

/-- What a concrete run reaches is decided by running it. -/
instance decidableReaches {P : σ → Prop} [DecidablePred P] (o : Option σ) :
    Decidable (∃ s, o = some s ∧ P s) :=
  inferInstanceAs (Decidable (∃ s ∈ o, P s))

instance decidableReturns {κ α : Type*} {P : α → Prop} [DecidablePred P] :
    (r : Except κ α) → Decidable (∃ a, r = .ok a ∧ P a)
  | .ok a => decidable_of_iff (P a) ⟨fun h => ⟨a, rfl, h⟩, fun ⟨_, h, hP⟩ => by cases h; exact hP⟩
  | .error _ => .isFalse fun ⟨_, h, _⟩ => by cases h

/-- What is decided of the state a concrete run reaches implies what is claimed of it. -/
theorem reaches_imp {P Q : σ → Prop} {o : Option σ} (h : ∃ s, o = some s ∧ P s)
    (hQ : ∀ s, o = some s → P s → Q s) : ∃ s, o = some s ∧ Q s := by
  obtain ⟨s, hs, hP⟩ := h
  exact ⟨s, hs, hQ s hs hP⟩

end Transition
