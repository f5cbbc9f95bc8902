import AgentMultiplexer.Access.DurableLedger

set_option autoImplicit false

/-! # The union of the journal files

The bytes of a journal file are the records of its appends in order; the last one may be damaged.
`JournalFile.Shape` says so, and appends and crashes keep it. Reading files of this shape succeeds
and amounts to inserting their records one after the other, so the entry of a key is the last record
that was read for it. `Settled` names the situation in which that is a given record whatever a crash
does to the last records of the files. -/

namespace AgentMultiplexer.Access

open List Nat

/-! ## What a file holds -/

/-- Every record the appends wrote to the file, the last one included. -/
def JournalFile.records (f : JournalFile) : List ReplayRecord := f.recs ++ f.last.toList

/-- The bytes of a file are whole, durable records, and what is left of one more. -/
structure JournalFile.Shape (f : JournalFile) : Prop where
  data : ∃ tail, f.data = encodeAll f.recs ++ tail ∧ TailOf f.last tail
  durable : (encodeAll f.recs).length ≤ f.synced
  written : f.synced ≤ f.data.length
  size : f.data.length ≤ maxJournalBytes
  wellFormed : ∀ r ∈ f.records, r.WellFormed
  inShard : ∀ r ∈ f.records, shardFor r.keyID = f.shard

/-- The file ends at the end of a record. -/
def JournalFile.Whole (f : JournalFile) : Prop := f.data = encodeAll f.records

theorem Damaged.of_take {rec : ReplayRecord} (n : Nat) : Damaged rec ((recordBytes rec).take n) := by
  refine ⟨min n (recordBytes rec).length, 0, min_le_right _ _, ?_⟩
  rw [replicate_zero, append_nil, take_eq_take_iff]
  omega

theorem Damaged.crashed {rec : ReplayRecord} {tail : List UInt8} (h : Damaged rec tail)
    {kept zeros : Nat} (hle : kept + zeros ≤ tail.length) :
    Damaged rec (tail.take kept ++ .replicate zeros 0) := by
  obtain ⟨m, z, hmz, rfl⟩ := h
  have hlength : ((recordBytes rec).take m).length = m := by
    rw [length_take, min_eq_left (by omega)]
  rw [length_append, hlength, length_replicate] at hle
  by_cases hk : kept ≤ m
  · refine ⟨kept, zeros, by omega, ?_⟩
    rw [take_append_of_le_length (by omega), take_take, min_eq_left hk]
  · refine ⟨m, kept - m + zeros, by omega, ?_⟩
    rw [take_append, hlength, take_of_length_le (by omega), take_replicate,
      min_eq_left (by omega), append_assoc, replicate_append_replicate]

theorem TailOf.crashed {last : Option ReplayRecord} {tail : List UInt8} (h : TailOf last tail)
    {kept zeros : Nat} (hle : kept + zeros ≤ tail.length) :
    TailOf last (tail.take kept ++ List.replicate zeros 0) := by
  cases last with
  | none =>
    obtain rfl : tail = [] := h
    have hz : zeros = 0 := by
      simp only [length_nil] at hle
      omega
    subst hz
    simp [TailOf]
  | some rec => exact Damaged.crashed h hle

namespace JournalFile

variable {f g : JournalFile} {rec : ReplayRecord}

/-- A crash damages the last record only. -/
theorem Shape.crashed (h : f.Shape) {kept zeros : Nat} (hf : f.crashed kept zeros = some g) :
    g.Shape ∧ g.gen = f.gen ∧ g.shard = f.shard ∧ g.recs = f.recs ∧ g.last = f.last := by
  unfold JournalFile.crashed at hf
  split_ifs at hf with hguard
  cases hf
  obtain ⟨tail, hdata, htail⟩ := h.data
  have hdurable := h.durable
  have hsize := h.size
  have hlength : f.data.length = (encodeAll f.recs).length + tail.length := by
    rw [hdata, length_append]
  have hnew : (f.data.take kept ++ .replicate zeros 0).length = kept + zeros := by
    rw [length_append, length_take, length_replicate]
    omega
  refine ⟨⟨⟨tail.take (kept - (encodeAll f.recs).length) ++ .replicate zeros 0, ?_, ?_⟩, ?_,
    ?_, ?_, h.wellFormed, h.inShard⟩, rfl, rfl, rfl, rfl⟩
  · rw [hdata, take_append, take_of_length_le (by omega), append_assoc]
  · exact htail.crashed (by omega)
  · show (encodeAll f.recs).length ≤ kept + zeros
    omega
  · exact le_of_eq hnew.symm
  · rw [hnew]
    omega

/-- An append to a file that ends with a whole record, and with a durable one if the append
    fails. -/
theorem Shape.append (h : f.Shape) (hrec : rec.WellFormed) (hshard : shardFor rec.keyID = f.shard)
    (hwhole : f.Whole) {outcome : AppendOutcome}
    (hsynced : ∀ n, outcome = .failed n → f.synced = f.data.length)
    (hsize : f.data.length + (recordBytes rec).length ≤ maxJournalBytes) :
    (f.append rec outcome).Shape := by
  have hwf : ∀ r ∈ f.records ++ [rec], r.WellFormed :=
    forall_mem_append.mpr ⟨h.wellFormed, forall_mem_singleton.mpr hrec⟩
  have hin : ∀ r ∈ f.records ++ [rec], shardFor r.keyID = f.shard :=
    forall_mem_append.mpr ⟨h.inShard, forall_mem_singleton.mpr hshard⟩
  cases outcome with
  | ok =>
    have hdata : f.data ++ recordBytes rec = encodeAll (f.records ++ [rec]) := by
      rw [show f.data = _ from hwhole, encodeAll, encodeAll, flatMap_append]
      simp
    have hlength : (encodeAll (f.records ++ [rec])).length =
        f.data.length + (recordBytes rec).length := by
      rw [← hdata, length_append]
    exact {
      data := ⟨[], hdata.trans (append_nil _).symm, rfl⟩
      durable := le_of_eq hlength
      written := le_of_eq length_append.symm
      size := le_trans (le_of_eq length_append) hsize
      wellFormed := fun r hr => hwf r (by simpa [records, JournalFile.append] using hr)
      inShard := fun r hr => hin r (by simpa [records, JournalFile.append] using hr) }
  | failed n =>
    cases n with
    | zero => exact h
    | succ n =>
      have hlength : (encodeAll f.records).length = f.synced := by
        rw [hsynced _ rfl, ← show f.data = _ from hwhole]
      exact {
        data := ⟨(recordBytes rec).take (n + 1),
          congrArg (· ++ (recordBytes rec).take (n + 1)) hwhole, .of_take (n + 1)⟩
        durable := le_of_eq hlength
        written := le_trans h.written (le_trans (le_add_right _ _)
          (le_of_eq length_append.symm))
        size := by
          refine le_trans (le_of_eq length_append) (le_trans ?_ hsize)
          exact Nat.add_le_add_left (length_take_le' _ _) _
        wellFormed := fun r hr => hwf r (by simpa [records, JournalFile.append] using hr)
        inShard := fun r hr => hin r (by simpa [records, JournalFile.append] using hr) }

/-- Reading the file adds its durable records, possibly with the last one. -/
theorem Shape.read (h : f.Shape) (entries : ReplayEntries) :
    ∃ kept n, (kept = f.recs ∨ kept = f.records) ∧
      readJournal f.data entries = .ok (addRecords entries kept, n) := by
  obtain ⟨tail, hdata, htail⟩ := h.data
  have hsize := h.size
  rw [hdata] at hsize ⊢
  exact readJournal_shape h.wellFormed htail hsize entries

end JournalFile

/-! ## Reading the union -/

/-- Every record of this key is `r`. -/
def OnlyAs (r : ReplayRecord) (recs : List ReplayRecord) : Prop :=
  ∀ x ∈ recs, replayKey x = replayKey r → x = r

variable {r : ReplayRecord}

theorem OnlyAs.append {l l' : List ReplayRecord} (h : OnlyAs r l)
    (h' : OnlyAs r l') : OnlyAs r (l ++ l') :=
  forall_mem_append.mpr ⟨h, h'⟩

theorem OnlyAs.of_append {l l' : List ReplayRecord} (h : OnlyAs r (l ++ l')) :
    OnlyAs r l ∧ OnlyAs r l' :=
  ⟨fun x hx => h x (mem_append_left _ hx), fun x hx => h x (mem_append_right _ hx)⟩

/-- An entry survives the reading of records that agree with it. -/
theorem lookup_addRecords {entries : ReplayEntries} {recs : List ReplayRecord}
    (h : entries.lookup (replayKey r) = some r) (hrecs : OnlyAs r recs) :
    (addRecords entries recs).lookup (replayKey r) = some r := by
  induction recs generalizing entries with
  | nil => exact h
  | cons x recs ih =>
    refine ih ?_ fun y hy => hrecs y (mem_cons_of_mem _ hy)
    rw [GoMap.lookup_insert_ite]
    split
    next hkey => rw [hrecs x mem_cons_self hkey.symm]
    next => exact h

/-- A record is the entry of its key once it was read, if every later one agrees with it. -/
theorem lookup_addRecords_of_mem (entries : ReplayEntries)
    (a : List ReplayRecord) {b : List ReplayRecord} (hb : OnlyAs r b) :
    (addRecords entries (a ++ r :: b)).lookup (replayKey r) = some r := by
  rw [addRecords, foldl_append, foldl_cons, ← addRecords]
  refine lookup_addRecords ?_ hb
  rw [GoMap.lookup_insert_ite, if_pos rfl]

/-- Reading these files ends with `r` as the entry of its key: a file that meets `P` holds it
    durably, and every later record of the key is `r` again. -/
inductive Settled (P : JournalFile → Prop) (r : ReplayRecord) : List JournalFile → Prop
  | here {f : JournalFile} {post : List JournalFile} (a b : List ReplayRecord) (hP : P f)
      (hrecs : f.recs = a ++ r :: b) (hlater : OnlyAs r (b ++ f.last.toList))
      (hpost : ∀ g ∈ post, OnlyAs r g.records) : Settled P r (f :: post)
  | there {f : JournalFile} {files : List JournalFile} (h : Settled P r files) :
      Settled P r (f :: files)

/-- The file `g` is `f` after more was written that agrees with `r`. -/
def Grows (r : ReplayRecord) (f g : JournalFile) : Prop :=
  ∃ more, g.recs = f.recs ++ more ∧
    (OnlyAs r f.last.toList → OnlyAs r (more ++ g.last.toList))

theorem Grows.onlyAs {f g : JournalFile} (h : Grows r f g)
    (hf : OnlyAs r f.records) : OnlyAs r g.records := by
  obtain ⟨more, hrecs, hlast⟩ := h
  rw [JournalFile.records, hrecs, append_assoc]
  exact hf.of_append.1.append (hlast hf.of_append.2)

variable {files : List JournalFile}

theorem onlyAs_of_grows {R : JournalFile → JournalFile → Prop}
    (hR : ∀ f g, R f g → Grows r f g) {files' : List JournalFile}
    (h : List.Forall₂ R files files') (hfiles : ∀ f ∈ files, OnlyAs r f.records) :
    ∀ g ∈ files', OnlyAs r g.records := by
  induction h with
  | nil => exact hfiles
  | cons hfg _ ih =>
    obtain ⟨hf, hrest⟩ := forall_mem_cons.mp hfiles
    exact forall_mem_cons.mpr ⟨(hR _ _ hfg).onlyAs hf, ih hrest⟩

variable {P : JournalFile → Prop}

theorem Settled.grows {Q : JournalFile → Prop} {files' : List JournalFile} (h : Settled P r files)
    (hgrows : List.Forall₂ (fun f g => (P f → Q g) ∧ Grows r f g) files files') :
    Settled Q r files' := by
  induction h generalizing files' with
  | here a b hP hrecs hlater hpost =>
    cases hgrows with
    | cons hfg htail =>
      obtain ⟨hPQ, more, hmore, hlast⟩ := hfg
      have hgrown := hlater.of_append.1.append (hlast hlater.of_append.2)
      rw [← append_assoc] at hgrown
      refine .here a (b ++ more) (hPQ hP) ?_ hgrown (onlyAs_of_grows (fun _ _ h => h.2) htail hpost)
      rw [hmore, hrecs, append_assoc, cons_append]
  | there _ ih =>
    cases hgrows with
    | cons _ htail => exact .there (ih htail)

/-- New files at the end change nothing when they agree. -/
theorem Settled.append {more : List JournalFile}
    (h : Settled P r files) (hmore : ∀ g ∈ more, OnlyAs r g.records) :
    Settled P r (files ++ more) := by
  induction h with
  | here a b hP hrecs hlater hpost =>
    exact .here a b hP hrecs hlater (forall_mem_append.mpr ⟨hpost, hmore⟩)
  | there _ ih => exact .there ih

/-- Without its first file, what was settled there is not contradicted by the rest. -/
theorem Settled.tail {f : JournalFile} (h : Settled P r (f :: files)) :
    Settled P r files ∨ (P f ∧ ∀ g ∈ files, OnlyAs r g.records) := by
  cases h with
  | here a b hP hrecs hlater hpost => exact .inr ⟨hP, hpost⟩
  | there h => exact .inl h

/-- **Recovery of well-shaped files succeeds**, and finds every entry that is settled in the files
    or is in the snapshot and not contradicted by them. -/
theorem recoverEntries_ok (hshape : ∀ f ∈ files, f.Shape)
    (entries : ReplayEntries) : ∃ result, recoverEntries entries files = .ok result ∧
      ∀ r, Settled (fun _ => True) r files ∨
          (entries.lookup (replayKey r) = some r ∧ ∀ f ∈ files, OnlyAs r f.records) →
        result.lookup (replayKey r) = some r := by
  induction files generalizing entries with
  | nil =>
    refine ⟨entries, rfl, ?_⟩
    rintro r (hsettled | ⟨hentry, -⟩)
    · cases hsettled
    · exact hentry
  | cons f files ih =>
    obtain ⟨kept, n, hkept, hread⟩ := (hshape f mem_cons_self).read entries
    obtain ⟨result, hresult, hlookup⟩ :=
      ih (fun g hg => hshape g (mem_cons_of_mem _ hg)) (addRecords entries kept)
    refine ⟨result, ?_, fun r hr => hlookup r ?_⟩
    · rw [recoverEntries, foldlM_cons, hread]
      exact hresult
    rcases hr with hsettled | ⟨hentry, honly⟩
    · cases hsettled with
      | here a b hP hrecs hlater hpost =>
        refine .inr ⟨?_, hpost⟩
        rcases hkept with rfl | rfl
        · rw [hrecs]
          exact lookup_addRecords_of_mem entries a hlater.of_append.1
        · rw [JournalFile.records, hrecs, append_assoc, cons_append]
          exact lookup_addRecords_of_mem entries a hlater
      | there h => exact .inl h
    · have hf : OnlyAs r f.records := honly f mem_cons_self
      refine .inr ⟨lookup_addRecords hentry ?_, fun g hg => honly g (mem_cons_of_mem _ hg)⟩
      rcases hkept with rfl | rfl
      · exact hf.of_append.1
      · exact hf

end AgentMultiplexer.Access
