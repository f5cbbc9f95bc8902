import Mathlib.Data.List.Forall2
import AgentMultiplexer.Daemon.EventPager

set_option autoImplicit false

/-! # Rounds of a page

Each round of the loop of `computePage` does one thing: it ends the sweep, delivers one waiting
event, passes over a file that is not there, or reads from one file. What a round can do is said
once, `Paging.Does`; everything about a page follows from it by induction over its rounds. -/

namespace AgentMultiplexer.Daemon.EventPager

/-! ## What reading a source consumes

`readEventSource` takes fragments off a file, puts them together to lines and decodes each complete
line. Its state between two fragments is a function of the bytes consumed so far: the complete lines
in them are decoded, the rest is the record in progress, kept as long as it is not too long. Where
the file only grows, a call goes on from what was consumed before, and decodes exactly the lines it
completes. -/

section

open Lines List RuntimeEvents SliceReader Nat

/-- A complete line of a source, and the bindings it is decoded under. -/
structure Record (β : Type) where
  source : Nat
  line : Bytes
  bindings : β

/-- What a line yields: events, or one marker for a line that is too long to decode. -/
inductive Item
  | event (ev : RuntimeEvent)
  | rawRecord (rawBytes : Nat)

section Reads

variable {δ β : Type} (lim : Limits) (dec : PageDecoder δ β)

/-- The whole-file decode: one decoder over the lines of all sources. -/
def lineDecoder (init : δ) : Transducer δ (Record β) Item where
  init := init
  step d r :=
    if lim.rawRecordBytes < r.line.length then (d, [.rawRecord r.line.length])
    else ((dec.map d r.source r.line r.bindings).1,
      (dec.map d r.source r.line r.bindings).2.map .event)

/-! ## The record in progress -/

/-- The source has consumed `done`, and `tail` is its record in progress. -/
structure Source.Holds (src : Source) (done tail : Bytes) : Prop where
  offset : src.offset = done.length
  recordSize : src.recordSize = tail.length
  discarding : src.discarding = decide (lim.rawRecordBytes < tail.length)
  partialLine : src.partialLine = if lim.rawRecordBytes < tail.length then [] else tail

/-- The source has consumed `done` and decoded its complete lines. -/
def Source.Read (src : Source) (done : Bytes) : Prop := src.Holds lim done (rest newline done)

variable {lim dec} {done : Bytes}

theorem Source.Holds.take {src : Source} {tail : Bytes} (h : src.Holds lim done tail)
    (fragment : Bytes) : (src.take lim fragment).Holds lim (done ++ fragment) (tail ++ fragment) := by
  rw [Source.take]
  split
  next hnil => simpa [eq_nil_of_length_eq_zero hnil] using h
  -- the record is given up exactly when it gets too long
  have hcond : (src.discarding ∨ lim.rawRecordBytes < src.partialLine.length + fragment.length) ↔
      lim.rawRecordBytes < (tail ++ fragment).length := by
    rw [h.discarding, h.partialLine, length_append]
    by_cases hlong : lim.rawRecordBytes < tail.length
    · simp only [hlong, decide_true, true_or, true_iff]
      omega
    · simp [hlong]
  by_cases hlong : lim.rawRecordBytes < (tail ++ fragment).length
  · simp only [if_pos (hcond.mpr hlong)]
    exact ⟨by simp [h.offset], by simp [h.recordSize], (decide_eq_true hlong).symm,
      (if_pos hlong).symm⟩
  simp only [if_neg (mt hcond.mp hlong)]
  have hshort : ¬ lim.rawRecordBytes < tail.length := by
    rw [length_append] at hlong
    omega
  refine ⟨by simp [h.offset], by simp [h.recordSize], ?_, ?_⟩
  · rw [decide_eq_false hlong, h.discarding, decide_eq_false hshort]
  · rw [if_neg hlong, h.partialLine, if_neg hshort]

@[simp] theorem Source.take_rest (src : Source) (fragment : Bytes) :
    (src.take lim fragment).spec = src.spec ∧ (src.take lim fragment).identity = src.identity ∧
      (src.take lim fragment).pending = src.pending := by
  rw [Source.take]
  split
  next => exact ⟨rfl, rfl, rfl⟩
  next => dsimp only; split <;> exact ⟨rfl, rfl, rfl⟩

theorem Source.take_offset (src : Source) (fragment : Bytes) :
    (src.take lim fragment).offset = src.offset + fragment.length := by
  rw [Source.take]
  split
  next hnil => rw [hnil, add_zero]
  next => dsimp only; split <;> rfl

/-! ## Lines and fragments -/

variable {fragment : Bytes}

theorem lines_append_of_notMem (done : Bytes) (h : newline ∉ fragment) :
    lines newline (done ++ fragment) = lines newline done ∧
      rest newline (done ++ fragment) = rest newline done ++ fragment := by
  have hno : newline ∉ rest newline done ++ fragment := by
    simp [h, delim_notMem_rest]
  rw [lines_append, rest_append, lines_of_notMem hno, rest_of_notMem hno]
  simp

theorem lines_append_of_isLine (done : Bytes) (h : IsLine newline fragment) :
    lines newline (done ++ fragment) = lines newline done ++ [rest newline done ++ fragment] ∧
      rest newline (done ++ fragment) = [] := by
  obtain ⟨body, hbody, rfl⟩ := h
  have hline : IsLine newline (rest newline done ++ (body ++ [newline])) :=
    ⟨rest newline done ++ body, by simp [hbody, delim_notMem_rest], by simp⟩
  have hl := lines_line_append hline []
  have hr := rest_line_append hline []
  rw [append_nil] at hl hr
  rw [lines_append, rest_append, hl, hr]
  simp

theorem getLast?_of_isLine (h : IsLine newline fragment) : fragment.getLast? = some newline := by
  obtain ⟨body, -, rfl⟩ := h
  simp

theorem getLast?_ne_of_notMem (h : newline ∉ fragment) : fragment.getLast? ≠ some newline :=
  fun hlast => h (mem_of_getLast? hlast)

/-! ## One line -/

/-- What a finished round of reading has put out. -/
def outcome (src : Source) : Option Nat → List Item
  | some size => [.rawRecord size]
  | none => src.pending.map .event

variable (dec) in
section

variable (x : Reading δ)

include x

/-- Completing a record is one step of the whole-file decode. -/
theorem Reading.complete_step (init : δ) {line : Bytes} (i : Nat)
    (bindings : β) (h : x.source.Holds lim done line) (hpending : x.source.pending = [])
    (hrest : rest newline done = []) : (x.complete dec i bindings).1.source.Read lim done ∧
      (lineDecoder lim dec init).step x.decoder ⟨i, line, bindings⟩ =
        ((x.complete dec i bindings).1.decoder,
          outcome (x.complete dec i bindings).1.source (x.complete dec i bindings).2) ∧
      ((x.complete dec i bindings).2.isSome →
        (x.complete dec i bindings).1.source.pending = []) := by
  by_cases hlong : lim.rawRecordBytes < line.length
  · have hdisc : x.source.discarding = true := by rw [h.discarding]; simp [hlong]
    simp only [Reading.complete, hdisc, if_true, lineDecoder, hlong, outcome, h.recordSize]
    refine ⟨?_, trivial, fun _ => hpending⟩
    rw [Source.Read, hrest]
    exact ⟨h.offset, by simp, by simp, by simp⟩
  · have hdisc : x.source.discarding = false := by rw [h.discarding]; simp [hlong]
    have hpart : x.source.partialLine = line := by rw [h.partialLine, if_neg hlong]
    simp only [Reading.complete, hdisc, Bool.false_eq_true, if_false, lineDecoder, hlong, outcome,
      hpart]
    refine ⟨?_, trivial, by simp⟩
    rw [Source.Read, hrest]
    exact ⟨h.offset, by simp, by simp, by simp⟩

@[simp] theorem Reading.complete_rest (i : Nat) (bindings : β) :
    (x.complete dec i bindings).1.source.spec = x.source.spec ∧
      (x.complete dec i bindings).1.source.identity = x.source.identity ∧
      (x.complete dec i bindings).1.source.offset = x.source.offset ∧
      (x.complete dec i bindings).1.reader = x.reader ∧
      (x.complete dec i bindings).1.op = x.op := by
  rw [Reading.complete]
  split <;> exact ⟨rfl, rfl, rfl, rfl, rfl⟩

end

/-! ## The loop -/

variable (lim dec) in
/-- From `x`, with `done` consumed, the loop has come to `res` with `done'` consumed: the lines it
    completed are decoded, and what the last of them yielded is waiting. -/
structure Advances (init : δ) (data : Nat → Bytes) (i : Nat) (bindings : β) (x : Reading δ)
    (done : Bytes) (res : ReadResult δ) (done' : Bytes) (ls : List Bytes) : Prop where
  grown : done <+: done'
  within : done' <+: data res.reading.op
  later : x.op ≤ res.reading.op
  read : res.reading.source.Read lim done'
  lines : Lines.lines newline done' = Lines.lines newline done ++ ls
  decoded : (lineDecoder lim dec init).run x.decoder (ls.map fun l => ⟨i, l, bindings⟩) =
    (res.reading.decoder, outcome res.reading.source res.rawOversized)
  marked : res.rawOversized.isSome → res.reading.source.pending = []
  ended : res.hitEOF = true → res.reading.source.pending = []
  spec : res.reading.source.spec = x.source.spec
  identity : res.reading.source.identity = x.source.identity

variable {data : Nat → Bytes} {x : Reading δ}

theorem Advances.refl (init : δ) (i : Nat) (bindings : β)
    (hread : x.source.Read lim done) (hpending : x.source.pending = [])
    (hat : x.reader.At (data x.op) done) (hitEOF : Bool) :
    Advances lim dec init data i bindings x done ⟨x, hitEOF, none⟩ done [] where
  grown := prefix_refl _
  within := (prefix_append _ _).trans hat.buffered
  later := le_refl _
  read := hread
  lines := by simp
  decoded := by simp [outcome, hpending]
  marked := by simp
  ended _ := hpending
  spec := rfl
  identity := rfl

variable {res : ReadResult δ} {bindings : β} {i : Nat}

/-- Lines that yield nothing come before. -/
theorem Advances.after {init : δ} {x x₁ : Reading δ} {done₁ done' : Bytes} {ls₁ ls : List Bytes}
    (h : Advances lim dec init data i bindings x₁ done₁ res done' ls) (hgrown : done <+: done₁)
    (hlines : Lines.lines newline done₁ = Lines.lines newline done ++ ls₁)
    (hrun : (lineDecoder lim dec init).run x.decoder (ls₁.map fun l => ⟨i, l, bindings⟩) =
      (x₁.decoder, [])) (hop : x.op ≤ x₁.op) (hspec : x₁.source.spec = x.source.spec)
    (hident : x₁.source.identity = x.source.identity) :
    Advances lim dec init data i bindings x done res done' (ls₁ ++ ls) where
  grown := hgrown.trans h.grown
  within := h.within
  later := le_trans hop h.later
  read := h.read
  lines := by rw [h.lines, hlines, append_assoc]
  decoded := by
    rw [map_append, Transducer.run_append, hrun]
    simp [h.decoded]
  marked := h.marked
  ended := h.ended
  spec := h.spec.trans hspec
  identity := h.identity.trans hident

/-- A line that yields something ends the call. -/
theorem Advances.line {init : δ} {done' line : Bytes} (hgrown : done <+: done')
    (hwithin : done' <+: data res.reading.op) (hop : x.op ≤ res.reading.op)
    (hread : res.reading.source.Read lim done')
    (hlines : Lines.lines newline done' = Lines.lines newline done ++ [line])
    (hstep : (lineDecoder lim dec init).step x.decoder ⟨i, line, bindings⟩ =
      (res.reading.decoder, outcome res.reading.source res.rawOversized))
    (hmarked : res.rawOversized.isSome → res.reading.source.pending = [])
    (hended : res.hitEOF = false) (hspec : res.reading.source.spec = x.source.spec)
    (hident : res.reading.source.identity = x.source.identity) :
    Advances lim dec init data i bindings x done res done' [line] where
  grown := hgrown
  within := hwithin
  later := hop
  read := hread
  lines := hlines
  decoded := by simp [Transducer.run_cons, hstep]
  marked := hmarked
  ended heof := by simp [hended] at heof
  spec := hspec
  identity := hident

variable {byteBudget recordBudget ctx : Nat}

section

variable (h : readLoop lim dec data i bindings byteBudget recordBudget ctx x = .ok res)

include h

/-- One round takes a slice, and the loop returns with it or goes on. -/
theorem readLoop_round : res.reading = x ∨ ∃ ctx' y, ctx = ctx' + 1 ∧
      y.op = (x.reader.readSlice newline lim.bufferSize data (lim.bufferSize + 2) x.op).op ∧
      y.source.spec = x.source.spec ∧ y.source.identity = x.source.identity ∧
      y.source.offset = (x.source.take lim (x.reader.readSlice newline lim.bufferSize data
        (lim.bufferSize + 2) x.op).fragment).offset ∧ (res.reading = y ∨
        readLoop lim dec data i bindings byteBudget recordBudget ctx' y = .ok res) := by
  cases ctx with
  | zero =>
    rw [readLoop] at h
    split at h <;> cases h
    exact .inl rfl
  | succ ctx =>
    rw [readLoop] at h
    split at h
    next =>
      cases h
      exact .inl rfl
    dsimp only at h
    generalize x.reader.readSlice newline lim.bufferSize data (lim.bufferSize + 2) x.op = slice
      at h ⊢
    refine .inr ⟨ctx, ?_⟩
    split_ifs at h
    iterate 3
      cases h
      exact ⟨_, rfl, by simp, by simp, by simp, by simp, .inl rfl⟩
    · exact ⟨_, rfl, by simp, by simp, by simp, by simp, .inr h⟩
    · cases h
      exact ⟨_, rfl, rfl, by simp, by simp, rfl, .inl rfl⟩
    · exact ⟨_, rfl, rfl, by simp, by simp, rfl, .inr h⟩

/-- Whatever is read, the source stays the one it is and only moves forward. -/
theorem readLoop_frame : res.reading.source.spec = x.source.spec ∧
      res.reading.source.identity = x.source.identity ∧
      x.source.offset ≤ res.reading.source.offset ∧ x.op ≤ res.reading.op := by
  induction ctx using Nat.strong_induction_on generalizing x with
  | _ ctx ih =>
    rcases readLoop_round h with heq | ⟨ctx, y, rfl, hop, hspec, hident, hoffset, hnext⟩
    · rw [heq]
      exact ⟨rfl, rfl, le_refl _, le_refl _⟩
    have hop : x.op ≤ y.op := hop ▸ Reader.readSlice_le_op _ _ _ _
    have hle : x.source.offset ≤ y.source.offset := by
      rw [hoffset, Source.take_offset]
      exact le_add_right _ _
    rcases hnext with heq | h
    · exact heq ▸ ⟨hspec, hident, hle, hop⟩
    · obtain ⟨hspec', hident', hle', hop'⟩ := ih ctx (lt_succ_self ctx) h
      exact ⟨hspec'.trans hspec, hident'.trans hident, le_trans hle hle', le_trans hop hop'⟩

end

/-- **Reading decodes the lines it completes.** -/
theorem readLoop_advances (init : δ) (hgrow : ∀ n, data n <+: data (n + 1))
    (hread : x.source.Read lim done)
    (hpending : x.source.pending = []) (hat : x.reader.At (data x.op) done)
    (h : readLoop lim dec data i bindings byteBudget recordBudget ctx x = .ok res) :
    ∃ done' ls, Advances lim dec init data i bindings x done res done' ls := by
  induction ctx generalizing x done with
  | zero =>
    rw [readLoop] at h
    split_ifs at h
    cases h
    exact ⟨done, [], .refl init i bindings hread hpending hat false⟩
  | succ ctx ih =>
    rw [readLoop] at h
    split at h
    next =>
      cases h
      exact ⟨done, [], .refl init i bindings hread hpending hat false⟩
    obtain ⟨hat₁, hop, hline, hno⟩ :=
      hat.readSlice newline lim.bufferSize hgrow (lim.bufferSize + 2)
    dsimp only at h hat₁ hop hline hno
    generalize x.reader.readSlice newline lim.bufferSize data (lim.bufferSize + 2) x.op = slice
      at h hat₁ hop hline hno
    have hheld := Source.Holds.take hread slice.fragment
    have hgrown : done <+: done ++ slice.fragment := prefix_append _ _
    have hwithin : done ++ slice.fragment <+: data slice.op :=
      (prefix_append _ _).trans hat₁.buffered
    by_cases herr : slice.error = .none
    · -- a line is complete
      have hisLine := hline herr
      obtain ⟨hlines, hrest⟩ := lines_append_of_isLine done hisLine
      rw [if_pos (getLast?_of_isLine hisLine)] at h
      set x₁ : Reading δ := { x with
        reader := slice.reader, op := slice.op, bytes := slice.reader.read,
        source := x.source.take lim slice.fragment }
      have hpending₁ : x₁.source.pending = [] := by simpa [x₁] using hpending
      obtain ⟨hread₁, hstep, hmarked⟩ :=
        x₁.complete_step dec init i bindings hheld hpending₁ hrest
      change (lineDecoder lim dec init).step x.decoder _ = _ at hstep
      have hdone : Advances lim dec init data i bindings x done
          ⟨(x₁.complete dec i bindings).1, false, (x₁.complete dec i bindings).2⟩
          (done ++ slice.fragment) [rest newline done ++ slice.fragment] :=
        .line hgrown (by simpa [x₁] using hwithin) (by simpa [x₁] using hop) hread₁ hlines
          hstep hmarked rfl (by simp [x₁]) (by simp [x₁])
      split at h
      next =>
        cases h
        exact ⟨_, _, hdone⟩
      next hraw =>
      have hraw : (x₁.complete dec i bindings).2 = none := by simpa using hraw
      rw [hraw] at hdone hstep
      split at h
      next =>
        cases h
        exact ⟨_, _, hdone⟩
      next hnone =>
      rw [if_neg (by simp [herr])] at h
      have hnil : (x₁.complete dec i bindings).1.source.pending = [] := by
        simpa using hnone
      obtain ⟨done', ls, hrec⟩ := ih hread₁ hnil (by simpa [x₁] using hat₁) h
      refine ⟨done', _, hrec.after hgrown hlines ?_ ?_ ?_ ?_⟩
      · simp [Transducer.run_cons, hstep, outcome, hnil]
      · simpa [x₁] using hop
      · simp [x₁]
      · simp [x₁]
    · -- the record goes on
      have hnone := hno herr
      obtain ⟨hlines, hrest⟩ := lines_append_of_notMem done hnone
      rw [if_neg (getLast?_ne_of_notMem hnone)] at h
      have hread₁ : (x.source.take lim slice.fragment).Read lim (done ++ slice.fragment) := by
        rw [Source.Read, hrest]
        exact hheld
      have hpending₁ : (x.source.take lim slice.fragment).pending = [] := by simpa using hpending
      have hlines' : lines newline (done ++ slice.fragment) = lines newline done ++ [] := by
        rw [hlines, append_nil]
      split at h
      next =>
        cases h
        exact ⟨_, _, (Advances.refl init i bindings hread₁ hpending₁ hat₁ true).after
          hgrown hlines' rfl hop (by simp) (by simp)⟩
      next =>
        obtain ⟨done', ls, hrec⟩ := ih hread₁ hpending₁ hat₁ h
        exact ⟨done', _, hrec.after hgrown hlines' rfl hop (by simp) (by simp)⟩

/-- **A call that consumes nothing met the end at once**: it read no byte and completed no record. -/
theorem readLoop_fresh (hreader : x.reader = ⟨[], false, x.source.offset, byteBudget, 0⟩)
    (hbytes : x.bytes = 0 ∧ 0 < byteBudget) (hrecords : x.records = 0 ∧ 0 < recordBudget)
    (h : readLoop lim dec data i bindings byteBudget recordBudget ctx x = .ok res) :
    x.source.offset < res.reading.source.offset ∨
      (res.reading.bytes = 0 ∧ res.reading.records = 0 ∧ res.reading.source = x.source) := by
  have hsize : 0 < lim.bufferSize := lt_of_lt_of_le (by decide) (le_max_right _ 16)
  by_cases hmore : x.source.offset < (data x.op).length
  · -- something is taken, and what follows only moves forward
    rcases readLoop_round h with heq | ⟨ctx, y, rfl, -, -, -, hoffset, hnext⟩
    · rw [heq]
      exact .inr ⟨hbytes.1, hrecords.1, rfl⟩
    have hfragment : (x.reader.readSlice newline lim.bufferSize data (lim.bufferSize + 2)
        x.op).fragment ≠ [] := by
      rw [hreader]
      exact Reader.readSlice_fresh_ne_nil x.op hmore hbytes.2 hsize
        (lt_succ_self (lim.bufferSize + 1))
    have hlt : x.source.offset < y.source.offset := by
      rw [hoffset, Source.take_offset]
      exact Nat.lt_add_of_pos_right (length_pos_of_ne_nil hfragment)
    refine .inl ?_
    rcases hnext with heq | h
    · exact heq ▸ hlt
    · exact lt_of_lt_of_le hlt (readLoop_frame h).2.2.1
  · cases ctx with
    | zero =>
      rw [readLoop, if_neg (by omega)] at h
      cases h
    | succ ctx =>
      rw [readLoop, if_neg (by omega)] at h
      rw [hreader, Reader.readSlice_fresh_nil x.op (Nat.le_of_not_lt hmore) hsize (by omega)] at h
      simp only [getLast?_nil, reduceCtorEq, if_false, if_true] at h
      cases h
      exact .inr ⟨rfl, hrecords.1, rfl⟩

end Reads

end

open RuntimeEvents Lines SliceReader Nat Paging

/-! ## Files that only grow -/

/-- From `w` to `w'` no name was taken away or given to another file, and files only grew. -/
structure World.Grows (w w' : World) : Prop where
  dir : ∀ path ident, w.dir path = some ident → w'.dir path = some ident
  data : ∀ ident, w.data ident <+: w'.data ident

theorem World.Grows.refl (w : World) : w.Grows w := ⟨fun _ _ h => h, fun _ => List.prefix_refl _⟩

theorem World.Grows.trans {w w' w'' : World} (h : w.Grows w') (h' : w'.Grows w'') : w.Grows w'' :=
  ⟨fun path ident hdir => h'.dir path ident (h.dir path ident hdir),
    fun ident => (h.data ident).trans (h'.data ident)⟩

/-- The worlds that a request sees only grow. -/
def Growing (view : Nat → World) : Prop := ∀ n, (view n).Grows (view (n + 1))

theorem Growing.le {view : Nat → World} (h : Growing view) {m n : Nat} (hle : m ≤ n) :
    (view m).Grows (view n) := by
  induction hle with
  | refl => exact .refl _
  | step _ ih => exact ih.trans (h _)

section Rounds

variable {δ β : Type} (lim : Limits) (dec : PageDecoder δ β) (enc : Encoding)

/-! ## What a round does -/

/-- The file behind a source was opened, found to be the recorded one, and read. -/
structure Paging.Reads (view : Nat → World) (bindings : β) (x : Paging δ) (src : Source)
    (ident : Nat) (result : ReadResult δ) (src' : Source) (y : Paging δ) : Prop where
  found : x.state.sources[x.state.source]? = some src
  idle : src.pending = []
  opened : (view x.op).dir src.spec.path = some ident
  same : ∀ ident', src.identity = some ident' →
    ident' = ident ∧ src.offset ≤ ((view (x.op + 1)).data ident).length
  loop : ∃ ctx, readLoop lim dec (fun n => (view n).data ident) x.state.source bindings
    (lim.pageReadBytes - x.readBytes) (lim.pageRecords - x.records) ctx
    ⟨{ src with identity := some ident }, x.state.decoder,
      ⟨[], false, src.offset, lim.pageReadBytes - x.readBytes, 0⟩, x.op + 3, 0, 0⟩ = .ok result
  anchored : result.reading.source.updateAnchor lim.anchorBytes
    ((view result.reading.op).data ident) = some src'
  after : y = { x with
    state := { x.state.setSource src' with decoder := result.reading.decoder }
    op := result.reading.op + 1
    readBytes := x.readBytes + result.reading.bytes
    records := x.records + result.reading.records }

/-- **What a round does.** -/
inductive Paging.Does (view : Nat → World) (bindings : β) (x : Paging δ) : Round δ → Prop
  | wrap (hnone : x.state.sources[x.state.source]? = none) :
      Does view bindings x
        (.stop { x with state := { x.state with source := 0 }, sweepComplete := true })
  | skip {src : Source} {event : RuntimeEvent} {rest : List RuntimeEvent}
      (hsrc : x.state.sources[x.state.source]? = some src) (hpending : src.pending = event :: rest)
      (hafter : x.state.sequence + 1 ≤ x.state.after) :
      Does view bindings x (.goOn (x.spend src rest))
  | carry {src : Source} {event : RuntimeEvent} {rest : List RuntimeEvent}
      (hsrc : x.state.sources[x.state.source]? = some src) (hpending : src.pending = event :: rest)
      (hafter : x.state.after < x.state.sequence + 1) :
      Does view bindings x (.goOn { x.spend src rest with
        page := { x.page with events := x.page.events ++ [(x.state.sequence + 1, event)] } })
  | full {src : Source} (hsrc : x.state.sources[x.state.source]? = some src)
      (hpending : src.pending ≠ []) (hpage : x.page.events ≠ [] ∨ x.page.oversized ≠ none) :
      Does view bindings x (.stop x)
  | mark {src : Source} {event : RuntimeEvent} {rest : List RuntimeEvent} {type : String}
      (hsrc : x.state.sources[x.state.source]? = some src) (hpending : src.pending = event :: rest)
      (hafter : x.state.after < x.state.sequence + 1) (hevents : x.page.events = [])
      (hlarge : pageFits lim enc { x.page with events := [(x.state.sequence + 1, event)] } = false)
      (htype : type = boundedOversizedEventType lim event.type ∨ type = "type_omitted") :
      Does view bindings x (.stop { x.spend src rest with
        page := { x.page with
          truncated := true
          oversized := some (.event (x.state.sequence + 1) type (enc.event event)) } })
  | missing {src : Source} (hsrc : x.state.sources[x.state.source]? = some src)
      (hidle : src.pending = []) (hdir : (view x.op).dir src.spec.path = none)
      (hnew : src.identity = none) :
      Does view bindings x (.goOn { x with
        op := x.op + 1, state := { x.state with source := x.state.source + 1 } })
  | skipRaw {src src' : Source} {ident size : Nat} {result : ReadResult δ} {y : Paging δ}
      (hreads : x.Reads lim dec view bindings src ident result src' y)
      (hraw : result.rawOversized = some size) (hafter : y.state.sequence + 1 ≤ y.state.after) :
      Does view bindings x (.goOn { y with
        state := { y.state with sequence := y.state.sequence + 1 }, processed := y.processed + 1 })
  | markRaw {src src' : Source} {ident size : Nat} {result : ReadResult δ} {y : Paging δ}
      (hreads : x.Reads lim dec view bindings src ident result src' y)
      (hraw : result.rawOversized = some size) (hafter : y.state.after < y.state.sequence + 1) :
      Does view bindings x (.stop { y with
        state := { y.state with sequence := y.state.sequence + 1 }
        processed := y.processed + 1
        page := { y.page with
          truncated := true, oversized := some (.rawRecord (y.state.sequence + 1) size) } })
  | next {src src' : Source} {ident : Nat} {result : ReadResult δ} {y : Paging δ}
      (hreads : x.Reads lim dec view bindings src ident result src' y)
      (hraw : result.rawOversized = none) (heof : result.hitEOF = true)
      (hend : ((view (x.op + 1)).data ident).length ≤ src'.offset) :
      Does view bindings x
        (.goOn { y with state := { y.state with source := y.state.source + 1 } })
  | stay {src src' : Source} {ident : Nat} {result : ReadResult δ} {y : Paging δ}
      (hreads : x.Reads lim dec view bindings src ident result src' y)
      (hraw : result.rawOversized = none) :
      Does view bindings x (.goOn y)

variable {lim dec enc}

variable {bindings : β} {x : Paging δ} {view : Nat → World} {r : Round δ} {src : Source}

theorem Paging.readSource_does {ctx : Nat}
    (hsrc : x.state.sources[x.state.source]? = some src)
    (hidle : src.pending = []) (h : x.readSource lim dec view bindings ctx src = .ok r) :
    x.Does lim dec enc view bindings r := by
  rw [readSource] at h
  split at h
  next hdir =>
    split_ifs at h with hnew
    cases h
    exact .missing hsrc hidle hdir (by simpa using hnew)
  next ident hdir =>
  dsimp only at h
  split at h
  next => cases h
  next hsame =>
  split_ifs at h
  split at h
  next => cases h
  next result hloop =>
  split at h
  next => cases h
  next src' hanchor =>
  have hreads : x.Reads lim dec view bindings src ident result src' _ :=
    ⟨hsrc, hidle, hdir, fun ident' hident => by
      rw [hident] at hsame
      simp only [Option.isSome_some, true_and, not_or, not_not, not_lt, Option.some.injEq] at hsame
      exact hsame, ⟨ctx, hloop⟩, hanchor, rfl⟩
  split at h
  next size hraw =>
    split at h
    next hafter =>
      cases h
      exact .skipRaw hreads hraw hafter
    next hafter =>
      cases h
      exact .markRaw hreads hraw (Nat.lt_of_not_le hafter)
  next hraw =>
    split at h
    next => cases h
    split at h
    next hend =>
      cases h
      exact .next hreads hraw hend.1 hend.2
    next =>
      cases h
      exact .stay hreads hraw

theorem Paging.deliver_does {event : RuntimeEvent} {rest : List RuntimeEvent}
    (hsrc : x.state.sources[x.state.source]? = some src) (hpending : src.pending = event :: rest) :
    x.Does lim dec enc view bindings (x.deliver lim enc src event rest) := by
  rw [deliver]
  dsimp only
  by_cases hafter : x.state.sequence + 1 ≤ x.state.after
  · rw [if_pos hafter]
    exact .skip hsrc hpending hafter
  rw [if_neg hafter]
  have hafter := Nat.lt_of_not_le hafter
  split
  next => exact .carry hsrc hpending hafter
  next hlarge =>
  split
  next hpage =>
    refine .full hsrc (by simp [hpending]) (hpage.imp ?_ ?_)
    · exact fun hne hnil => hne (by rw [hnil]; rfl)
    · exact fun hsome hnone => by simp [hnone] at hsome
  next hpage =>
    have hevents : x.page.events = [] := by
      rw [not_or, not_not] at hpage
      exact List.eq_nil_of_length_eq_zero hpage.1
    have hlarge : pageFits lim enc { x.page with events := [(x.state.sequence + 1, event)] } =
        false := by
      rw [hevents] at hlarge
      exact Bool.eq_false_of_not_eq_true hlarge
    split
    next => exact .mark hsrc hpending hafter hevents hlarge (.inl rfl)
    next => exact .mark hsrc hpending hafter hevents hlarge (.inr rfl)

theorem Paging.round_does {ctx : Nat} (h : x.round lim dec enc view bindings ctx = .ok r) :
    x.Does lim dec enc view bindings r := by
  rw [round] at h
  split at h
  next hnone =>
    cases h
    exact .wrap hnone
  next src hsrc =>
  split at h
  next event rest hpending =>
    cases h
    exact deliver_does hsrc hpending
  next hidle => exact readSource_does hsrc hidle h

variable {ctx : List Nat}

variable {x y : Paging δ}

/-- **Induction over the rounds of a page**: `Going` holds while the loop goes on, `Over` where it
    ended. -/
theorem pageLoop_induction (Going Over : Paging δ → Prop)
    (hover : ∀ x, Going x → x.sweepComplete = true ∨ lim.pageReadBytes ≤ x.readBytes ∨
      lim.pageRecords ≤ x.records ∨ lim.pageEvents ≤ x.processed → Over x)
    (hgo : ∀ x y, Going x → x.sweepComplete = false →
      x.Does lim dec enc view bindings (.goOn y) → Going y)
    (hstop : ∀ x y, Going x → x.sweepComplete = false →
      x.Does lim dec enc view bindings (.stop y) → Over y) (hx : Going x)
    (h : pageLoop lim dec enc view bindings ctx x = .ok y) : Over y := by
  induction ctx generalizing x with
  | nil =>
    rw [pageLoop] at h
    split_ifs at h with hexit
    cases h
    exact hover _ hx hexit
  | cons checks ctx ih =>
    rw [pageLoop] at h
    split at h
    next hexit =>
      cases h
      exact hover _ hx hexit
    next hgoing =>
    have hsweep : x.sweepComplete = false := by
      simp only [not_or, Bool.not_eq_true] at hgoing
      exact hgoing.1
    split at h
    next => cases h
    next z hround =>
      cases h
      exact hstop x _ hx hsweep (round_does hround)
    next z hround => exact ih (hgo x z hx hsweep (round_does hround)) h

/-! ## What a page leaves as it was -/

variable {c : Cursor δ}

theorem Cursor.setSource_getElem? (src' : Source)
    (hsrc : c.sources[c.source]? = some src) (i : Nat) :
    (c.setSource src').sources[i]? = if i = c.source then some src' else c.sources[i]? := by
  have hlt : c.source < c.sources.length := (List.getElem?_eq_some_iff.mp hsrc).1
  rw [Cursor.setSource, List.getElem?_set]
  by_cases hi : i = c.source
  · simp [hi, hlt]
  · simp [hi, Ne.symm hi]

variable {src src' : Source}

@[simp] theorem Cursor.setSource_source (c : Cursor δ) (src : Source) :
    (c.setSource src).source = c.source := rfl

@[simp] theorem Cursor.setSource_length (c : Cursor δ) (src : Source) :
    (c.setSource src).sources.length = c.sources.length := by
  simp [Cursor.setSource]

theorem Source.updateAnchor_eq {n : Nat} {data : Bytes}
    (h : src.updateAnchor n data = some src') : ∃ anchor, src' = { src with anchor := anchor } := by
  rw [Source.updateAnchor] at h
  split at h
  next =>
    cases h
    exact ⟨[], rfl⟩
  next =>
    obtain ⟨anchor, -, rfl⟩ := Option.map_eq_some_iff.mp h
    exact ⟨anchor, rfl⟩

/-- The sources are the same but for their anchors. -/
def SameButAnchors (sources sources' : List Source) : Prop :=
  List.Forall₂ (fun src src' => ∃ anchor, src' = { src with anchor := anchor }) sources sources'

variable {sources sources' : List Source}

theorem refreshAnchors_same {op : Nat}
    (h : refreshAnchors lim view op sources = .ok sources') : SameButAnchors sources sources' := by
  induction sources generalizing op sources' with
  | nil =>
    cases h
    exact .nil
  | cons src rest ih =>
    -- the rest of the list was refreshed, and this source is as it was but for its anchor
    have hcons {op' : Nat} {src' : Source} (hsrc : ∃ anchor, src' = { src with anchor := anchor })
        (hmap : (refreshAnchors lim view op' rest).map (src' :: ·) = .ok sources') :
        SameButAnchors (src :: rest) sources' := by
      cases hrest : refreshAnchors lim view op' rest with
      | error err => simp [hrest, Except.map] at hmap
      | ok rest' =>
        rw [hrest] at hmap
        cases hmap
        exact .cons hsrc (ih hrest)
    rw [refreshAnchors] at h
    split at h
    next => exact hcons ⟨src.anchor, rfl⟩ h
    split at h
    next => exact hcons ⟨src.anchor, rfl⟩ h
    split at h
    next => cases h
    split at h
    next => cases h
    next src' hanchor => exact hcons (Source.updateAnchor_eq hanchor) h

theorem SameButAnchors.getElem? (h : SameButAnchors sources sources')
    {i : Nat} {src' : Source} (hsrc : sources'[i]? = some src') :
    ∃ src anchor, sources[i]? = some src ∧ src' = { src with anchor := anchor } := by
  induction h generalizing i with
  | nil => simp at hsrc
  | @cons a b l l' hab _ ih =>
    cases i with
    | zero =>
      obtain ⟨anchor, rfl⟩ := hab
      refine ⟨a, anchor, rfl, ?_⟩
      simpa using hsrc.symm
    | succ i => exact ih (by simpa using hsrc)

/-- The source is the same one, and it only moved forward. -/
structure Source.Onward (src src' : Source) : Prop where
  spec : src'.spec = src.spec
  offset : src.offset ≤ src'.offset
  identity : ∀ ident, src.identity = some ident → src'.identity = some ident

/-- The cursor is of the same chain, and it only moved forward. -/
structure Cursor.Onward (c c' : Cursor δ) : Prop where
  subject : c'.subject = c.subject
  target : c'.target = c.target
  signature : c'.signature = c.signature
  runtime : c'.runtime = c.runtime
  after : c'.after = c.after
  sequence : c.sequence ≤ c'.sequence
  length : c'.sources.length = c.sources.length
  sources : ∀ (i : Nat) (src src' : Source), c.sources[i]? = some src →
    c'.sources[i]? = some src' → src.Onward src'

theorem Source.Onward.refl (src : Source) : src.Onward src := ⟨rfl, le_refl _, fun _ h => h⟩

theorem Source.Onward.trans {src' src'' : Source} (h : src.Onward src')
    (h' : src'.Onward src'') : src.Onward src'' :=
  ⟨h'.spec.trans h.spec, le_trans h.offset h'.offset,
    fun ident hident => h'.identity ident (h.identity ident hident)⟩

theorem Cursor.Onward.refl (c : Cursor δ) : c.Onward c := by
  refine ⟨rfl, rfl, rfl, rfl, rfl, le_refl _, rfl, ?_⟩
  intro i src src' hsrc hsrc'
  cases hsrc.symm.trans hsrc'
  exact .refl src

theorem Cursor.Onward.trans {c c' c'' : Cursor δ} (h : c.Onward c') (h' : c'.Onward c'') :
    c.Onward c'' := by
  refine ⟨h'.subject.trans h.subject, h'.target.trans h.target, h'.signature.trans h.signature,
    h'.runtime.trans h.runtime, h'.after.trans h.after, le_trans h.sequence h'.sequence,
    h'.length.trans h.length, ?_⟩
  intro i src src'' hsrc hsrc''
  have hlt : i < c'.sources.length := by
    rw [h.length]
    exact (List.getElem?_eq_some_iff.mp hsrc).1
  have hmid : c'.sources[i]? = some c'.sources[i] := List.getElem?_eq_getElem hlt
  exact (h.sources i _ _ hsrc hmid).trans (h'.sources i _ _ hmid hsrc'')

theorem Cursor.Onward.setSource
    (hsrc : c.sources[c.source]? = some src) (honward : src.Onward src') :
    c.Onward (c.setSource src') := by
  refine ⟨rfl, rfl, rfl, rfl, rfl, le_refl _, by simp, ?_⟩
  intro i a b ha hb
  rw [Cursor.setSource_getElem? _ hsrc] at hb
  split at hb
  next hi =>
    subst hi
    cases hsrc.symm.trans ha
    cases hb
    exact honward
  next =>
    cases ha.symm.trans hb
    exact .refl _

theorem Paging.Reads.onward {ident : Nat} {result : ReadResult δ}
    (h : x.Reads lim dec view bindings src ident result src' y) :
    src.Onward src' ∧ x.state.Onward y.state := by
  obtain ⟨ctx, hloop⟩ := h.loop
  obtain ⟨hspec, hident, hoffset, -⟩ := readLoop_frame hloop
  obtain ⟨anchor, hsrc'⟩ := Source.updateAnchor_eq h.anchored
  have honward : src.Onward src' := by
    refine ⟨?_, ?_, ?_⟩
    · rw [hsrc']
      exact hspec
    · rw [hsrc']
      exact hoffset
    · intro ident' hident'
      rw [hsrc', (h.same ident' hident').1]
      exact hident
  refine ⟨honward, ?_⟩
  rw [h.after]
  exact { Cursor.Onward.setSource h.found honward with }

def Round.paging : Round δ → Paging δ
  | .goOn x => x
  | .stop x => x

theorem Paging.Does.onward
    (h : x.Does lim dec enc view bindings r) : x.state.Onward r.paging.state := by
  -- taking an event that waits leaves the file where it is
  have hspend {src : Source} {rest : List RuntimeEvent}
      (hsrc : x.state.sources[x.state.source]? = some src) :
      x.state.Onward (x.spend src rest).state := by
    have honward : src.Onward { src with pending := rest } :=
      ⟨rfl, le_refl _, fun _ hident => hident⟩
    exact { Cursor.Onward.setSource hsrc honward with sequence := le_succ _ }
  cases h with
  | wrap | missing => exact { Cursor.Onward.refl _ with }
  | skip hsrc | carry hsrc | mark hsrc => exact hspend hsrc
  | full => exact .refl _
  | skipRaw hreads | markRaw hreads =>
    exact { hreads.onward.2 with sequence := le_succ_of_le hreads.onward.2.sequence }
  | next hreads => exact { hreads.onward.2 with }
  | stay hreads => exact hreads.onward.2

theorem pageLoop_onward
    (h : pageLoop lim dec enc view bindings ctx x = .ok y) : x.state.Onward y.state :=
  pageLoop_induction (fun z => x.state.Onward z.state) (fun z => x.state.Onward z.state)
    (fun _ hz _ => hz)
    (fun _ _ hz _ hdoes => hz.trans hdoes.onward) (fun _ _ hz _ hdoes => hz.trans hdoes.onward)
    (.refl _) h

/-- A source that was never opened has not been read. -/
def Cursor.Unopened (c : Cursor δ) : Prop :=
  ∀ (i : Nat) (src : Source), c.sources[i]? = some src → src.identity = none → src.offset = 0

theorem Cursor.Unopened.setSource (h : c.Unopened)
    (hsrc : c.sources[c.source]? = some src) (hnew : src'.identity = none → src'.offset = 0) :
    (c.setSource src').Unopened := by
  intro i s hs
  rw [Cursor.setSource_getElem? _ hsrc] at hs
  split at hs
  next =>
    cases hs
    exact hnew
  next => exact h i s hs

/-- What a round leaves of the cursor's place in the cache, and of sources that were not opened. -/
structure Cursor.Keeps (c c' : Cursor δ) : Prop where
  addr : c'.addr = c.addr
  page : c'.page = c.page
  unopened : c.Unopened → c'.Unopened

theorem Paging.Does.keeps
    (h : x.Does lim dec enc view bindings r) : x.state.Keeps r.paging.state := by
  have hspend {src : Source} {rest : List RuntimeEvent}
      (hsrc : x.state.sources[x.state.source]? = some src) :
      x.state.Keeps (x.spend src rest).state :=
    ⟨rfl, rfl, fun hun => hun.setSource hsrc (hun _ src hsrc)⟩
  have hread {y : Paging δ} {src src' : Source} {ident : Nat} {result : ReadResult δ}
      (hreads : x.Reads lim dec view bindings src ident result src' y) : x.state.Keeps y.state := by
    rw [hreads.after]
    refine ⟨rfl, rfl, fun hun => .setSource hun hreads.found fun hnone => ?_⟩
    obtain ⟨ctx, hloop⟩ := hreads.loop
    obtain ⟨anchor, hanchor⟩ := Source.updateAnchor_eq hreads.anchored
    rw [hanchor] at hnone
    cases (readLoop_frame hloop).2.1.symm.trans hnone
  cases h with
  | wrap | full | missing => exact ⟨rfl, rfl, fun hun => hun⟩
  | skip hsrc | carry hsrc | mark hsrc => exact hspend hsrc
  | skipRaw hreads | markRaw hreads | next hreads =>
    exact ⟨(hread hreads).addr, (hread hreads).page, (hread hreads).unopened⟩
  | stay hreads => exact hread hreads

theorem Cursor.Keeps.trans {c c' c'' : Cursor δ} (h : c.Keeps c') (h' : c'.Keeps c'') :
    c.Keeps c'' :=
  ⟨h'.addr.trans h.addr, h'.page.trans h.page, fun hun => h'.unopened (h.unopened hun)⟩

theorem pageLoop_keeps
    (h : pageLoop lim dec enc view bindings ctx x = .ok y) : x.state.Keeps y.state :=
  pageLoop_induction (fun z => x.state.Keeps z.state) (fun z => x.state.Keeps z.state)
    (fun _ hz _ => hz) (fun _ _ hz _ hdoes => hz.trans hdoes.keeps)
    (fun _ _ hz _ hdoes => hz.trans hdoes.keeps) ⟨rfl, rfl, fun hun => hun⟩ h

/-! ## What a page returns -/

/-- The cursor a page starts from. -/
def Cursor.paging (c : Cursor δ) : Paging δ :=
  ⟨c.blankPage, c, 0, 0, 0, 0, c.sources.length = 0⟩

variable (lim dec enc) in
/-- The page and the cursor that `computePage` returns where its loop came to `x`. -/
structure Paging.Returns (poll : Poll) (x : Paging δ) (page : Page) (c : Cursor δ) : Prop where
  refreshed : refreshAnchors lim poll.view x.op x.state.sources = .ok c.sources
  onward : x.state.Onward c
  source : c.source = x.state.source
  sequence : c.sequence = x.state.sequence
  decoder : c.decoder = x.state.decoder
  token : c.token = some c.tokenFor
  cached : c.page = x.state.page ∧ c.nextCursor = x.state.nextCursor
  addr : c.addr = x.state.addr
  bytes : c.bytes = c.memoryBytes dec enc ∧ c.bytes ≤ lim.cursorSubjectBytes
  events : page.events = x.page.events
  oversized : page.oversized = x.page.oversized
  nextCursor : page.nextCursor = some c.tokenFor
  hasMore : page.hasMore = (!x.sweepComplete || hasBufferedWork c.sources)

theorem SameButAnchors.onward (h : SameButAnchors sources sources') {i : Nat}
    (hsrc : sources[i]? = some src) (hsrc' : sources'[i]? = some src') : src.Onward src' := by
  obtain ⟨src₀, anchor, hsrc₀, rfl⟩ := h.getElem? hsrc'
  cases hsrc.symm.trans hsrc₀
  exact ⟨rfl, le_refl _, fun _ hident => hident⟩

variable {page : Page} {poll : Poll}

theorem Paging.finish_returns
    (h : x.finish lim dec enc poll = .ok (page, c)) : x.Returns lim dec enc poll page c := by
  rw [finish] at h
  split at h
  next => cases h
  next sources hrefreshed =>
  dsimp only at h
  split at h
  next => cases h
  split at h
  next => cases h
  split_ifs at h with hbytes
  have hsame := refreshAnchors_same hrefreshed
  cases h
  exact {
    refreshed := hrefreshed
    onward := ⟨rfl, rfl, rfl, rfl, rfl, le_refl _, hsame.length_eq.symm,
      fun i src src' => hsame.onward⟩
    source := rfl
    sequence := rfl
    decoder := rfl
    token := rfl
    cached := ⟨rfl, rfl⟩
    addr := rfl
    bytes := ⟨rfl, Nat.le_of_not_lt hbytes⟩
    events := rfl
    oversized := rfl
    nextCursor := rfl
    hasMore := rfl }

variable {set : SourceSet β}

variable {c c' : Cursor δ}

section

variable (h : computePage lim dec enc poll c set = .ok (page, c'))

include h

/-- **What `computePage` returns** is what its loop came to. -/
theorem computePage_returns :
    c.signature = set.signature ∧ c.target = set.target ∧ c.runtime = set.runtime ∧
      ∃ x, pageLoop lim dec enc poll.view set.bindings poll.ctx c.paging = .ok x ∧
        x.Returns lim dec enc poll page c' := by
  rw [computePage] at h
  split at h
  next => cases h
  next hset =>
  simp only [not_or, not_not] at hset
  split at h
  next => cases h
  next x hloop => exact ⟨hset.1, hset.2.1, hset.2.2, x, hloop, finish_returns h⟩

theorem computePage_onward : c.Onward c' := by
  obtain ⟨-, -, -, x, hloop, hreturns⟩ := computePage_returns h
  exact (pageLoop_onward hloop).trans hreturns.onward

theorem computePage_keeps : c.Keeps c' := by
  obtain ⟨-, -, -, x, hloop, hreturns⟩ := computePage_returns h
  have hkeeps := pageLoop_keeps hloop
  refine ⟨hreturns.addr.trans hkeeps.addr, hreturns.cached.1.trans hkeeps.page, fun hun => ?_⟩
  intro i src' hsrc' hnone
  obtain ⟨src, anchor, hsrc, rfl⟩ := (refreshAnchors_same hreturns.refreshed).getElem? hsrc'
  exact hkeeps.unopened hun i src hsrc hnone

end

end Rounds

end AgentMultiplexer.Daemon.EventPager
