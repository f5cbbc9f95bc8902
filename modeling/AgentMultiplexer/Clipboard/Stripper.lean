import AgentMultiplexer.Theory.Transducer

set_option autoImplicit false

/-! # Clipboard writes left out of a replay

A hosted agent copies by an OSC 52 sequence, `ESC ] 52 ;` with data up to a terminator. The stripper
takes these sequences out of the bytes that are kept for a replay. It reads byte by byte and holds an
introducer back until the number is known; a byte that does not go on with the introducer is read
again as if it came first.

What it takes out are the sequences. But the bytes around a sequence are put together: an introducer
that was given up right before it may be completed by what follows it. -/

namespace AgentMultiplexer.Clipboard

open List

/-! ## The stripper -/

inductive StripState
  | ground
  | esc
  | oscNum
  | drop
  | dropEsc

structure Stripper where
  st : StripState
  pend : List UInt8

def isDigit (c : UInt8) : Bool := 0x30 ≤ c && c ≤ 0x39

namespace Stripper

/-- `stripGround`. -/
def ground (s : Stripper) (c : UInt8) : Stripper × List UInt8 :=
  if c = 0x1b then (⟨.esc, [c]⟩, []) else ({ s with st := .ground }, [c])

/-- What is pending goes out, and the byte is read again. -/
def abandon (s : Stripper) (c : UInt8) : Stripper × List UInt8 :=
  ((s.ground c).1, s.pend ++ (s.ground c).2)

/-- `stripEsc`. -/
def escape (s : Stripper) (c : UInt8) : Stripper × List UInt8 :=
  if c = 0x5d then (⟨.oscNum, s.pend ++ [c]⟩, []) else s.abandon c

/-- The loop body of `Strip`. -/
def step (s : Stripper) (c : UInt8) : Stripper × List UInt8 :=
  match s.st with
  | .ground => s.ground c
  | .esc => s.escape c
  | .oscNum =>
    let num := s.pend.drop 2
    if isDigit c ∧ num.length < 3 then ({ s with pend := s.pend ++ [c] }, [])
    else if c = 0x3b ∧ num = [0x35, 0x32] then (⟨.drop, []⟩, [])
    else s.abandon c
  | .drop =>
    if c = 0x07 ∨ c = 0x18 ∨ c = 0x1a then ({ s with st := .ground }, [])
    else if c = 0x1b then ({ s with st := .dropEsc }, [])
    else (s, [])
  | .dropEsc =>
    if c = 0x5c then ({ s with st := .ground }, []) else escape ⟨.esc, [0x1b]⟩ c

/-- The bytes that are held back. -/
def held (s : Stripper) : List UInt8 :=
  match s.st with
  | .esc | .oscNum => s.pend
  | .dropEsc => [0x1b]
  | .ground | .drop => []

end Stripper

def stripper : Transducer Stripper UInt8 UInt8 := ⟨⟨.ground, []⟩, Stripper.step⟩

def strip (s : Stripper × List UInt8) (p : List UInt8) : Stripper × List UInt8 :=
  ((stripper.run s.1 p).1, s.2 ++ (stripper.run s.1 p).2)

def stripChunks (chunks : List (List UInt8)) : Stripper × List UInt8 :=
  chunks.foldl strip (stripper.init, [])

theorem stripChunks_eq_run (chunks : List (List UInt8)) :
    stripChunks chunks = stripper.run stripper.init chunks.flatten := by
  induction chunks using List.reverseRecOn with
  | nil => rfl
  | append_singleton chunks p ih =>
    rw [stripChunks, foldl_append, ← stripChunks, ih, flatten_append, flatten_singleton,
      Transducer.run_append]
    rfl

/-! ## The sequences -/

def introducer : List UInt8 := [0x1b, 0x5d, 0x35, 0x32, 0x3b]

/-- Data of a sequence, which no byte of it ends. -/
def IsData (body : List UInt8) : Prop := ∀ c ∈ body, c ∉ [0x07, 0x18, 0x1a, (0x1b : UInt8)]

/-- An escape that may become an introducer. -/
inductive Undecided : List UInt8 → Prop
  | esc : Undecided [0x1b]
  | num (digits : List UInt8) (hdigits : ∀ d ∈ digits, isDigit d) (hlen : digits.length ≤ 3) :
      Undecided (0x1b :: 0x5d :: digits)

/-- **What is left of a stream without its OSC 52 sequences**, and the undecided end of it: BEL, CAN,
    SUB and ST belong to the sequence they end, the ESC of a following escape does not. -/
inductive Removes : List UInt8 → List UInt8 → List UInt8 → Prop
  | nil : Removes [] [] []
  | undecided {held : List UInt8} (h : Undecided held) : Removes held [] held
  | keep {c : UInt8} {rest out held : List UInt8} (hc : ¬ introducer <+: c :: rest)
      (h : Removes rest out held) : Removes (c :: rest) (c :: out) held
  | unfinished {body : List UInt8} (hbody : IsData body) : Removes (introducer ++ body) [] []
  | ended {body t rest out held : List UInt8} (hbody : IsData body)
      (hterm : t ∈ [[0x07], [0x18], [0x1a], [0x1b, (0x5c : UInt8)]]) (h : Removes rest out held) :
      Removes (introducer ++ body ++ (t ++ rest)) out held
  | aborted {body rest out held : List UInt8} (hbody : IsData body) (hrest : rest.head? ≠ some 0x5c)
      (h : Removes (0x1b :: rest) out held) : Removes (introducer ++ body ++ 0x1b :: rest) out held

/-! ## What the stripper removes -/

/-- What was read since the last byte that was decided. -/
inductive Reading : List UInt8 → Stripper → Prop
  | ground (pend : List UInt8) : Reading [] ⟨.ground, pend⟩
  | esc : Reading [0x1b] ⟨.esc, [0x1b]⟩
  | oscNum {digits : List UInt8} (hdigits : ∀ d ∈ digits, isDigit d) (hlen : digits.length ≤ 3) :
      Reading (0x1b :: 0x5d :: digits) ⟨.oscNum, 0x1b :: 0x5d :: digits⟩
  | drop {body : List UInt8} (hbody : IsData body) : Reading (introducer ++ body) ⟨.drop, []⟩
  | dropEsc {body : List UInt8} (hbody : IsData body) :
      Reading (introducer ++ body ++ [0x1b]) ⟨.dropEsc, []⟩

/-- A reading goes on by `c` with an output. -/
def GoesOn (read : List UInt8) (c : UInt8) (next : Stripper × List UInt8) : Prop :=
  ∃ read', Reading read' next.1 ∧ ∀ rest out held, Removes (read' ++ rest) out held →
    Removes (read ++ c :: rest) (next.2 ++ out) held

theorem Removes.keep_plain {u t out held : List UInt8} (hu : 0x1b ∉ u) (h : Removes t out held) :
    Removes (u ++ t) (u ++ out) held := by
  induction u with
  | nil => exact h
  | cons c u ih =>
    rw [mem_cons, not_or] at hu
    exact .keep (fun hp => hu.1 (cons_prefix_cons.mp hp).1) (ih hu.2)

theorem ground_goesOn (s : Stripper) (c : UInt8) : GoesOn [] c (s.ground c) := by
  rw [Stripper.ground]
  split
  next hc => exact ⟨[0x1b], hc ▸ .esc, fun rest out held h => hc ▸ h⟩
  next hc =>
    refine ⟨[], .ground _, fun rest out held h => h.keep_plain (u := [c]) ?_⟩
    simpa using Ne.symm hc

theorem abandon_goesOn {u : List UInt8} {st : StripState} (c : UInt8) (hu : 0x1b ∉ u)
    (hc : ∀ rest, ¬ introducer <+: 0x1b :: u ++ c :: rest) :
    GoesOn (0x1b :: u) c (Stripper.abandon ⟨st, 0x1b :: u⟩ c) := by
  obtain ⟨read', hread, hnext⟩ := ground_goesOn ⟨st, 0x1b :: u⟩ c
  refine ⟨read', hread, fun rest out held h => ?_⟩
  have hkept := (hnext rest out held h).keep_plain hu
  simpa [Stripper.abandon] using hkept.keep (hc rest)

theorem escape_goesOn (st : StripState) (c : UInt8) :
    GoesOn [0x1b] c (Stripper.escape ⟨st, [0x1b]⟩ c) := by
  rw [Stripper.escape]
  split
  next hc =>
    subst hc
    exact ⟨[0x1b, 0x5d], .oscNum (by simp) (by simp), fun rest out held h => h⟩
  next hc =>
    refine abandon_goesOn c (by simp) fun rest hp => hc ?_
    simp only [introducer, cons_append, nil_append, cons_prefix_cons] at hp
    exact hp.2.1.symm

theorem oscNum_goesOn {digits : List UInt8} (hdigits : ∀ d ∈ digits, isDigit d)
    (hlen : digits.length ≤ 3) (c : UInt8) : GoesOn (0x1b :: 0x5d :: digits) c
      (Stripper.step ⟨.oscNum, 0x1b :: 0x5d :: digits⟩ c) := by
  simp only [Stripper.step, drop_succ_cons, drop_zero]
  split
  next hc =>
    refine ⟨0x1b :: 0x5d :: (digits ++ [c]), .oscNum ?_ ?_, fun rest out held h => by simpa using h⟩
    · simpa [or_imp, forall_and] using ⟨hdigits, hc.1⟩
    · simpa using Nat.succ_le_of_lt hc.2
  next hnum =>
  split
  next hc =>
    obtain ⟨rfl, rfl⟩ := hc
    exact ⟨introducer ++ [], .drop (by simp [IsData]), fun rest out held h => h⟩
  next hc =>
    refine abandon_goesOn c ?_ fun rest hp => ?_
    · intro hmem
      rcases mem_cons.mp hmem with heq | hmem
      · exact absurd heq (by decide)
      · exact absurd (hdigits _ hmem) (by decide)
    simp only [introducer, cons_append, cons_prefix_cons, true_and] at hp
    rcases digits with _ | ⟨a, _ | ⟨b, _ | ⟨d, digits⟩⟩⟩
    · simp only [nil_append, cons_prefix_cons] at hp
      simp [← hp.1, isDigit] at hnum
    · simp only [cons_append, nil_append, cons_prefix_cons] at hp
      simp [← hp.2.1, isDigit] at hnum
    · simp only [cons_append, nil_append, cons_prefix_cons] at hp
      simp [← hp.1, ← hp.2.1, ← hp.2.2.1] at hc
    · simp only [cons_append, cons_prefix_cons] at hp
      simp [← hp.2.2.1, isDigit] at hdigits

theorem dropEsc_goesOn {body : List UInt8} (hbody : IsData body) (c : UInt8) :
    GoesOn (introducer ++ body ++ [0x1b]) c (Stripper.step ⟨.dropEsc, []⟩ c) := by
  simp only [Stripper.step]
  split
  next hc =>
    subst hc
    refine ⟨[], .ground _, fun rest out held h => ?_⟩
    simpa using Removes.ended (t := [0x1b, 0x5c]) hbody (by simp) h
  next hc =>
    obtain ⟨read', hread, hnext⟩ := escape_goesOn .esc c
    refine ⟨read', hread, fun rest out held h => ?_⟩
    simpa using Removes.aborted hbody (by simpa using hc) (hnext rest out held h)

theorem drop_goesOn {body : List UInt8} (hbody : IsData body) (c : UInt8) :
    GoesOn (introducer ++ body) c (Stripper.step ⟨.drop, []⟩ c) := by
  simp only [Stripper.step]
  split
  next hc =>
    refine ⟨[], .ground _, fun rest out held h => ?_⟩
    exact .ended (t := [c]) hbody (by simpa using hc) h
  next hend =>
  split
  next hc =>
    subst hc
    exact ⟨introducer ++ body ++ [0x1b], .dropEsc hbody, fun rest out held h => by simpa using h⟩
  next hesc =>
    refine ⟨introducer ++ (body ++ [c]), .drop ?_, fun rest out held h => by simpa using h⟩
    rw [IsData, forall_mem_append, forall_mem_singleton]
    exact ⟨hbody, by simpa [← or_assoc, hesc] using hend⟩

theorem Reading.step {read : List UInt8} {s : Stripper} (h : Reading read s) (c : UInt8) :
    GoesOn read c (s.step c) := by
  cases h with
  | ground pend => exact ground_goesOn _ c
  | esc => exact escape_goesOn .esc c
  | oscNum hdigits hlen => exact oscNum_goesOn hdigits hlen c
  | drop hbody => exact drop_goesOn hbody c
  | dropEsc hbody => exact dropEsc_goesOn hbody c

/-- **The stripper removes the sequences and nothing else.** -/
theorem Reading.removes {read : List UInt8} {s : Stripper} (h : Reading read s) (p : List UInt8) :
    Removes (read ++ p) (stripper.run s p).2 (stripper.run s p).1.held := by
  induction p generalizing read s with
  | nil =>
    rw [append_nil]
    cases h with
    | ground pend => exact .nil
    | esc => exact .undecided .esc
    | oscNum hdigits hlen => exact .undecided (.num _ hdigits hlen)
    | drop hbody => exact .unfinished hbody
    | dropEsc hbody => exact .aborted hbody (by simp) (.undecided .esc)
  | cons c p ih =>
    obtain ⟨read', hread, hnext⟩ := h.step c
    exact hnext p _ _ (ih hread)

/-! ## No sequence is left -/

/-- No introducer stands right behind a part of one. -/
def Calm (p : List UInt8) : Prop :=
  ∀ k < introducer.length, 0 < k → ¬ introducer.take k ++ introducer <:+: p

instance (p : List UInt8) : Decidable (Calm p) := by
  unfold Calm
  infer_instance

theorem Calm.of_suffix {p q : List UInt8} (h : Calm q) (hp : p <:+ q) : Calm p := by
  intro k hlt hpos hinf
  exact h k hlt hpos (hinf.trans hp.isInfix)

/-- What the output starts with stands at the start of the input, unless a sequence was removed from
    in between. -/
theorem Removes.start {p out held w : List UInt8} (h : Removes p out held) (hw : w <+: out) :
    w <+: p ∨ ∃ u, u <+: w ∧ u ≠ w ∧ (u ++ introducer) <+: p := by
  by_cases hnil : w = []
  · exact .inl (hnil ▸ List.nil_prefix)
  induction h generalizing w with
  | nil | undecided => exact absurd (prefix_nil.mp hw) hnil
  | unfinished => exact absurd (prefix_nil.mp hw) hnil
  | ended | aborted =>
    refine .inr ⟨[], List.nil_prefix, Ne.symm hnil, ?_⟩
    exact prefix_append _ _
  | @keep c rest out held hc h ih =>
    obtain ⟨d, w, rfl⟩ := exists_cons_of_ne_nil hnil
    obtain ⟨rfl, hrest⟩ := cons_prefix_cons.mp hw
    by_cases hw' : w = []
    · subst hw'
      exact .inl (by simp)
    rcases ih hrest hw' with hp | ⟨u, hu, hne, hp⟩
    · exact .inl (cons_prefix_cons.mpr ⟨rfl, hp⟩)
    · exact .inr ⟨d :: u, by simpa using hu, by simpa using hne, by simpa using hp⟩

theorem Removes.no_introducer {p out held : List UInt8} (h : Removes p out held) (hp : Calm p) :
    ¬ introducer <:+: out := by
  induction h with
  | nil | undecided | unfinished => simp [introducer]
  | ended _ _ _ ih => exact ih (hp.of_suffix (by simp [← append_assoc]))
  | aborted _ _ _ ih => exact ih (hp.of_suffix (suffix_append _ _))
  | @keep c rest out held hc h ih =>
    rw [infix_cons_iff, not_or]
    refine ⟨fun hstart => ?_, ih (hp.of_suffix (suffix_cons _ _))⟩
    rcases (Removes.keep hc h).start hstart with hin | ⟨u, hu, hne, hin⟩
    · exact hc hin
    · have htake := prefix_iff_eq_take.mp hu
      have hlt : u.length < introducer.length :=
        hu.length_le.lt_of_ne fun heq => hne (hu.eq_of_length heq)
      rcases u.length.eq_zero_or_pos with hzero | hpos
      · rw [length_eq_zero_iff.mp hzero] at hin
        exact hc hin
      · exact hp _ hlt hpos (htake ▸ hin.isInfix)

theorem Removes.sublist {p out held : List UInt8} (h : Removes p out held) : out <+ p := by
  induction h with
  | nil | undecided | unfinished => exact List.nil_sublist _
  | keep _ _ ih => exact ih.cons_cons _
  | ended _ _ _ ih => exact ih.trans ((sublist_append_right _ _).trans (sublist_append_right _ _))
  | aborted _ _ _ ih => exact ih.trans (sublist_append_right _ _)

/-- **The stripper is complete and exact**, for a stream in which no introducer stands right behind a
    part of one: the chunks do not matter, the output is what is left of the stream without its OSC 52
    sequences, up to the undecided end that is held back, and it has none. -/
theorem osc52_stripped {chunks : List (List UInt8)} (hcalm : Calm chunks.flatten) :
    (stripChunks chunks).2 = (stripChunks [chunks.flatten]).2 ∧
      (stripChunks chunks).2 <+ chunks.flatten ∧
      Removes chunks.flatten (stripChunks chunks).2 (stripChunks chunks).1.held ∧
      ¬ introducer <:+: (stripChunks chunks).2 := by
  have hremoves := (Reading.ground []).removes chunks.flatten
  rw [stripChunks_eq_run, stripChunks_eq_run, flatten_singleton]
  exact ⟨rfl, hremoves.sublist, hremoves, hremoves.no_introducer hcalm⟩

theorem osc52_stripped_split :
    Calm [0x61, 0x1b, 0x5d, 0x35, 0x32, 0x3b, 0x07, 0x62] ∧
      (stripChunks [[0x61, 0x1b, 0x5d], [0x35, 0x32, 0x3b, 0x07, 0x62]]).2 = [0x61, 0x62] ∧
      ¬ introducer <:+: (stripChunks [[0x61, 0x1b, 0x5d], [0x35, 0x32, 0x3b, 0x07, 0x62]]).2 :=
  ⟨by decide, by decide, (osc52_stripped (by decide)).2.2.2⟩

/-- An empty clipboard write between an ESC and the rest of an introducer leaves a clipboard write. -/
theorem stripping_joins_introducer :
    (stripChunks [[0x1b] ++ introducer ++ [0x07],
      [0x5d, 0x35, 0x32, 0x3b, 0x63, 0x3b, 0x51, 0x51, 0x3d, 0x3d, 0x07]]).2 =
      introducer ++ [0x63, 0x3b, 0x51, 0x51, 0x3d, 0x3d, 0x07] := by
  decide

end AgentMultiplexer.Clipboard
