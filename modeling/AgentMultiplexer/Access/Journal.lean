import AgentMultiplexer.Theory.Json
import AgentMultiplexer.Access.Replay

set_option autoImplicit false

/-! # The replay journal: records on disk

An accepted request is appended to a journal file as one record: the payload's length and its
CRC-32C, both big-endian, then the payload, a JSON object. Recovery reads the records of a file in
order into the ledger. A damaged end of the file, which an interrupted append leaves, is dropped;
anything else that cannot be read is an error.

The second half of the module is about the bytes: a record that was written is read back, and every
damage a crash can do to a last record leaves a file that reads without an error. -/

namespace AgentMultiplexer.Access

open Bytes List Json List

def replayShards : Nat := 8
def maxReplayRecord : Nat := 2 ^ 10
def replayHeader : Nat := 8

/-- The size of a journal file that `readJournal` accepts. -/
def maxJournalBytes : Nat := replayJournalLimit * (replayHeader + maxReplayRecord)

/-- `shardFor`: the journal shard of a key id. -/
def shardFor (keyID : String) : Nat := (fnv32a (utf8 keyID.toList)).toNat % replayShards

/-! ## Writing -/

/-- The fields of a record as `json.Marshal` writes them. -/
def recordFields (rec : ReplayRecord) : List (String × Json.Scalar) :=
  [("keyId", .str rec.keyID), ("generation", .num (Json.writeNat rec.generation)),
   ("requestId", .str rec.requestID), ("bodyDigest", .str rec.bodyDigest),
   ("expiresAt", .num (Json.writeInt rec.expiresAt))]

def marshalRecord (rec : ReplayRecord) : List UInt8 := Json.writeObject (recordFields rec)

def recordBytes (rec : ReplayRecord) : List UInt8 :=
  be32 (marshalRecord rec).length ++ be32 (crc32c (marshalRecord rec)).toNat ++ marshalRecord rec

def encodeReplayRecord (rec : ReplayRecord) : Except AccessError (List UInt8) :=
  if (marshalRecord rec).length > maxReplayRecord then .error .capacity
  else .ok (recordBytes rec)

/-! ## Reading -/

/-- Store a member of the input in the field it names; a member that names no field is ignored. -/
def setField (rec : ReplayRecord) (name : String) (v : Json.Value) : Option ReplayRecord :=
  if Json.namesField name "keyId" then
    Json.storeString rec (fun s => { rec with keyID := s }) v
  else if Json.namesField name "generation" then
    Json.storeUint64 rec (fun n => { rec with generation := n }) v
  else if Json.namesField name "requestId" then
    Json.storeString rec (fun s => { rec with requestID := s }) v
  else if Json.namesField name "bodyDigest" then
    Json.storeString rec (fun s => { rec with bodyDigest := s }) v
  else if Json.namesField name "expiresAt" then
    Json.storeInt64 rec (fun i => { rec with expiresAt := i }) v
  else some rec

/-- The zero value `json.Unmarshal` starts from. -/
def zeroRecord : ReplayRecord := ⟨"", 0, "", "", 0⟩

def unmarshalRecord (payload : List UInt8) : Option ReplayRecord :=
  match Json.parse payload with
  | some (.obj fields) =>
    fields.foldlM (fun rec field => setField rec field.1 field.2) zeroRecord
  | some .null => some zeroRecord
  | _ => none

/-- The record of a payload whose checksum has to be `sum`. -/
def readPayload (payload : List UInt8) (sum : Nat) : Option ReplayRecord :=
  if (crc32c payload).toNat ≠ sum then none
  else (unmarshalRecord payload).filter fun rec => rec.keyID ≠ "" && rec.requestID ≠ ""

inductive JournalError
  /-- The file is larger than any journal the daemon writes. -/
  | capacity
  /-- A record at this offset cannot be read. -/
  | corrupt (offset : Nat)
  deriving DecidableEq

def allZero (data : List UInt8) : Bool := data.all (· = 0)

/-- An unreadable end of the file: dropped when one record can have left it. -/
def torn {α : Type} (off : Nat) (data : List UInt8) (result : α) : Except JournalError α :=
  if data.length > replayHeader + maxReplayRecord then .error (.corrupt off) else .ok result

/-- The loop of `readJournal` over the bytes `data` at offset `off`: the ledger with every record
    added, and how many there were. The fuel is the number of bytes. -/
def readRecords : Nat → Nat → List UInt8 → ReplayEntries × Nat →
    Except JournalError (ReplayEntries × Nat)
  | _, _, [], acc => .ok acc
  | 0, off, _ :: _, _ => .error (.corrupt off)
  | fuel + 1, off, b :: rest, acc =>
    let data := b :: rest
    let length := readBE32 data
    let stop := replayHeader + length
    if data.length < replayHeader then torn off data acc
    else if length = 0 ∧ allZero data then torn off data acc
    else if length = 0 ∨ length > maxReplayRecord then .error (.corrupt off)
    else if data.length < stop then torn off data acc
    else
      match readPayload ((data.drop replayHeader).take length) (readBE32 (data.drop 4)) with
      | none =>
        -- the final record, cut short before its sync returned
        if data.length = stop then .ok acc else .error (.corrupt off)
      | some rec =>
        readRecords fuel (off + stop) (data.drop stop)
          (acc.1.insert (replayKey rec) rec, acc.2 + 1)

/-- `readJournal` over the contents of a file. -/
def readJournal (data : List UInt8) (entries : ReplayEntries) :
    Except JournalError (ReplayEntries × Nat) :=
  if data.length > maxJournalBytes then .error .capacity
  else readRecords data.length 0 data (entries, 0)

/-! ## A written record is read back -/

/-- The shape of every record `Verify` passes on: hexadecimal ids and digest, and integers in the
    ranges of their Go types. -/
structure ReplayRecord.WellFormed (rec : ReplayRecord) : Prop where
  keyID : validHexID rec.keyID 16
  requestID : validHexID rec.requestID 16
  bodyDigest : validHexID rec.bodyDigest 32
  generation : rec.generation < 2 ^ 64
  expiresLow : -2 ^ 63 ≤ rec.expiresAt
  expiresHigh : rec.expiresAt < 2 ^ 63

theorem isPlain_of_isHexDigit {c : Char} (hc : isHexDigit c) : isPlain c := by
  have hrange : (48 ≤ c.toNat ∧ c.toNat ≤ 57) ∨ (97 ≤ c.toNat ∧ c.toNat ≤ 102) ∨
      (65 ≤ c.toNat ∧ c.toNat ≤ 70) := by
    simpa [isHexDigit, Char.le_def, UInt32.le_iff_toNat_le, or_assoc] using hc
  have hne : ∀ d : Char, d.toNat < 48 ∨ 57 < d.toNat ∧ d.toNat < 65 ∨ 70 < d.toNat ∧ d.toNat < 97 →
      c ≠ d := by
    rintro d hd rfl
    omega
  simp only [isPlain, isAscii, Bool.and_eq_true, decide_eq_true_eq, bne_iff_ne]
  refine ⟨⟨⟨⟨⟨⟨?_, ?_⟩, ?_⟩, ?_⟩, ?_⟩, ?_⟩, ?_⟩
  · omega
  · omega
  all_goals exact hne _ (by decide)

variable {s : String} {n : Nat}

theorem validHexID_plain (h : validHexID s n) : ∀ c ∈ s.toList, isPlain c := by
  simp only [validHexID, Bool.and_eq_true] at h
  exact fun c hc => isPlain_of_isHexDigit (all_eq_true.mp h.2 c hc)

theorem validHexID_length (h : validHexID s n) : s.toList.length = n * 2 := by
  simp only [validHexID, Bool.and_eq_true, decide_eq_true_eq] at h
  exact h.1

variable {rec : ReplayRecord}

theorem plainFields_recordFields (h : rec.WellFormed) : Json.PlainFields (recordFields rec) := by
  have hname : ∀ name ∈ ["keyId", "generation", "requestId", "bodyDigest", "expiresAt"],
      (Json.Scalar.str name).Plain := by
    intro name hmem c hc
    have hall : (["keyId", "generation", "requestId", "bodyDigest", "expiresAt"].all fun name =>
        name.toList.all isPlain) = true := by decide
    exact all_eq_true.mp (all_eq_true.mp hall name hmem) c hc
  intro f hf
  simp only [recordFields, mem_cons, not_mem_nil, or_false] at hf
  rcases hf with rfl | rfl | rfl | rfl | rfl
  · exact ⟨hname _ (by simp), validHexID_plain h.keyID⟩
  · exact ⟨hname _ (by simp), plain_writeNat _⟩
  · exact ⟨hname _ (by simp), validHexID_plain h.requestID⟩
  · exact ⟨hname _ (by simp), validHexID_plain h.bodyDigest⟩
  · exact ⟨hname _ (by simp), plain_writeInt _⟩

theorem unmarshalRecord_marshalRecord (h : rec.WellFormed) :
    unmarshalRecord (marshalRecord rec) = some rec := by
  have hkey : ∀ r v, setField r "keyId" v = storeString r (fun s => { r with keyID := s }) v :=
    fun r v => by rw [setField, if_pos (by decide)]
  have hgen : ∀ r v, setField r "generation" v =
      storeUint64 r (fun n => { r with generation := n }) v :=
    fun r v => by rw [setField, if_neg (by decide), if_pos (by decide)]
  have hreq : ∀ r v, setField r "requestId" v =
      storeString r (fun s => { r with requestID := s }) v :=
    fun r v => by rw [setField, if_neg (by decide), if_neg (by decide), if_pos (by decide)]
  have hbody : ∀ r v, setField r "bodyDigest" v =
      storeString r (fun s => { r with bodyDigest := s }) v :=
    fun r v => by
      rw [setField, if_neg (by decide), if_neg (by decide), if_neg (by decide), if_pos (by decide)]
  have hexp : ∀ r v, setField r "expiresAt" v =
      storeInt64 r (fun i => { r with expiresAt := i }) v :=
    fun r v => by
      rw [setField, if_neg (by decide), if_neg (by decide), if_neg (by decide),
        if_neg (by decide), if_pos (by decide)]
  rw [unmarshalRecord, marshalRecord, parse_writeObject (plainFields_recordFields h)]
  simp [recordFields, Json.Scalar.value, hkey, hgen, hreq, hbody, hexp, storeString,
    storeUint64, storeInt64, parseUint64_writeNat h.generation,
    parseInt64_writeInt h.expiresLow h.expiresHigh]

theorem length_writeString_hex (h : validHexID s n) :
    (writeString s).length = n * 2 + 2 := by
  rw [writeString, flatMap_writeChar_plain (validHexID_plain h)]
  simp [validHexID_length h]

/-- The length of a payload fits in the last byte of its big-endian encoding. -/
theorem length_marshalRecord (h : rec.WellFormed) :
    0 < (marshalRecord rec).length ∧ (marshalRecord rec).length < 2 ^ 8 := by
  have hkey := length_writeString_hex h.keyID
  have hreq := length_writeString_hex h.requestID
  have hbody := length_writeString_hex h.bodyDigest
  have hgen : (writeNat rec.generation).length ≤ 20 :=
    length_writeNat_le (by decide) (Nat.lt_trans h.generation (by decide))
  have hexp := length_writeInt_le h.expiresLow h.expiresHigh
  have hnames : (writeString "keyId").length = 7 ∧ (writeString "generation").length = 12 ∧
      (writeString "requestId").length = 11 ∧ (writeString "bodyDigest").length = 12 ∧
      (writeString "expiresAt").length = 11 := by decide
  obtain ⟨h1, h2, h3, h4, h5⟩ := hnames
  simp only [marshalRecord, writeObject, recordFields, writeMembers, Json.Scalar.write,
    length_cons, length_append, length_nil, hkey, hreq, hbody, h1, h2, h3, h4, h5]
  omega

theorem length_recordBytes (rec : ReplayRecord) :
    (recordBytes rec).length = replayHeader + (marshalRecord rec).length := by
  simp [recordBytes, replayHeader]
  omega

theorem encodeReplayRecord_ok (h : rec.WellFormed) :
    encodeReplayRecord rec = .ok (recordBytes rec) := by
  have hlength := (length_marshalRecord h).2
  rw [encodeReplayRecord, if_neg]
  simp only [maxReplayRecord]
  omega

theorem validHexID_ne_empty (hn : 0 < n) (h : validHexID s n) : s ≠ "" := by
  rintro rfl
  have := validHexID_length h
  simp at this
  omega

theorem readPayload_marshalRecord (h : rec.WellFormed) :
    readPayload (marshalRecord rec) (crc32c (marshalRecord rec)).toNat = some rec := by
  have hkey := validHexID_ne_empty (by decide) h.keyID
  have hreq := validHexID_ne_empty (by decide) h.requestID
  rw [readPayload, if_neg (not_not.mpr rfl), unmarshalRecord_marshalRecord h, Option.filter_some]
  simp [hkey, hreq]

theorem read_recordBytes (h : rec.WellFormed) (rest : List UInt8) :
    readBE32 (recordBytes rec ++ rest) = (marshalRecord rec).length ∧
      readBE32 ((recordBytes rec ++ rest).drop 4) = (crc32c (marshalRecord rec)).toNat ∧
      ((recordBytes rec ++ rest).drop replayHeader).take (marshalRecord rec).length =
        marshalRecord rec ∧
      (recordBytes rec ++ rest).drop (replayHeader + (marshalRecord rec).length) = rest := by
  have hlength := (length_marshalRecord h).2
  have hcrc : (crc32c (marshalRecord rec)).toNat < 2 ^ 32 := UInt32.toNat_lt _
  have hdrop : (recordBytes rec ++ rest).drop replayHeader = marshalRecord rec ++ rest := by
    rfl
  refine ⟨?_, ?_, ?_, ?_⟩
  · exact readBE32_be32 (by omega) _
  · rw [recordBytes, append_assoc, append_assoc,
      show 4 = (be32 (marshalRecord rec).length).length from rfl, drop_left]
    exact readBE32_be32 hcrc _
  · rw [hdrop, take_left]
  · rw [← length_recordBytes, drop_left]

theorem readRecords_succ {data : List UInt8} (hne : data ≠ []) (fuel off : Nat)
    (acc : ReplayEntries × Nat) :
    readRecords (fuel + 1) off data acc =
      if data.length < replayHeader then torn off data acc
      else if readBE32 data = 0 ∧ allZero data then torn off data acc
      else if readBE32 data = 0 ∨ readBE32 data > maxReplayRecord then .error (.corrupt off)
      else if data.length < replayHeader + readBE32 data then torn off data acc
      else
        match readPayload ((data.drop replayHeader).take (readBE32 data))
            (readBE32 (data.drop 4)) with
        | none =>
          if data.length = replayHeader + readBE32 data then .ok acc else .error (.corrupt off)
        | some rec =>
          readRecords fuel (off + (replayHeader + readBE32 data))
            (data.drop (replayHeader + readBE32 data))
            (acc.1.insert (replayKey rec) rec, acc.2 + 1) := by
  cases data with
  | nil => exact absurd rfl hne
  | cons b rest => rfl

/-- **A record that was written whole is read**, whatever follows it. -/
theorem readRecords_recordBytes (h : rec.WellFormed) (fuel off : Nat)
    (rest : List UInt8) (acc : ReplayEntries × Nat) :
    readRecords (fuel + 1) off (recordBytes rec ++ rest) acc =
      readRecords fuel (off + (recordBytes rec).length) rest
        (acc.1.insert (replayKey rec) rec, acc.2 + 1) := by
  obtain ⟨hpos, hlt⟩ := length_marshalRecord h
  obtain ⟨hlen, hsum, hpayload, hrest⟩ := read_recordBytes h rest
  have htotal : (recordBytes rec ++ rest).length =
      replayHeader + (marshalRecord rec).length + rest.length := by
    rw [length_append, length_recordBytes]
  have hne : recordBytes rec ++ rest ≠ [] := by
    intro heq
    rw [heq] at htotal
    simp only [length_nil] at htotal
    omega
  have hmax : ¬ ((marshalRecord rec).length = 0 ∨ (marshalRecord rec).length > maxReplayRecord) := by
    simp only [maxReplayRecord]
    omega
  rw [readRecords_succ hne, hlen, hsum, hpayload, hrest, htotal, if_neg (by omega),
    if_neg (by omega), if_neg hmax, if_neg (by omega), readPayload_marshalRecord h,
    length_recordBytes]

def encodeAll (recs : List ReplayRecord) : List UInt8 := recs.flatMap recordBytes

def addRecords (entries : ReplayEntries) (recs : List ReplayRecord) : ReplayEntries :=
  recs.foldl (fun m rec => m.insert (replayKey rec) rec) entries

theorem readRecords_encodeAll {recs : List ReplayRecord} (h : ∀ r ∈ recs, r.WellFormed)
    (fuel off : Nat) (rest : List UInt8) (acc : ReplayEntries × Nat) :
    readRecords (fuel + recs.length) off (encodeAll recs ++ rest) acc =
      readRecords fuel (off + (encodeAll recs).length) rest
        (addRecords acc.1 recs, acc.2 + recs.length) := by
  induction recs generalizing off acc with
  | nil => rfl
  | cons r recs ih =>
    have htail : ∀ r ∈ recs, r.WellFormed := fun x hx => h x (mem_cons_of_mem _ hx)
    rw [encodeAll, flatMap_cons, ← encodeAll, append_assoc, length_cons,
      ← Nat.add_assoc, readRecords_recordBytes (h r mem_cons_self), ih htail,
      length_append]
    simp only [addRecords, foldl_cons, Nat.add_assoc, Nat.add_comm 1]

/-! ## A damaged last record is dropped -/

/-- What an interrupted append can leave of a record: a prefix of its bytes, and zeros where the
    file grew before its data was written. -/
def Damaged (rec : ReplayRecord) (tail : List UInt8) : Prop :=
  ∃ m z, m + z ≤ (recordBytes rec).length ∧
    tail = (recordBytes rec).take m ++ List.replicate z 0

theorem torn_ok {α : Type} {off : Nat} {data : List UInt8} {result : α}
    (h : data.length ≤ replayHeader + maxReplayRecord) : torn off data result = .ok result := by
  rw [torn, if_neg (by omega)]

/-- A payload with a NUL byte is no record. -/
theorem readPayload_nul {payload : List UInt8} {sum : Nat} (h : 0 ∈ payload) :
    readPayload payload sum = none := by
  have hparse : parse payload = none := by
    cases hp : parse payload with
    | none => rfl
    | some v => exact absurd h (parse_no_nul hp)
  rw [readPayload]
  split
  · rfl
  · rw [unmarshalRecord, hparse]
    rfl

/-- The first three bytes of a record are zero, so less than four bytes of it look like no data at
    all. -/
theorem take_recordBytes_small (h : rec.WellFormed) {m : Nat} (hm : m < 4) :
    (recordBytes rec).take m = .replicate m 0 := by
  rw [recordBytes, be32_small (length_marshalRecord h).2]
  match m, hm with
  | 0, _ => rfl
  | 1, _ => rfl
  | 2, _ => rfl
  | 3, _ => rfl

theorem readBE32_replicate (n : Nat) : readBE32 (.replicate n 0) = 0 := by
  match n with
  | 0 => rfl
  | 1 => rfl
  | 2 => rfl
  | 3 => rfl
  | n + 4 => rfl

theorem allZero_replicate (n : Nat) : allZero (.replicate n 0) := by
  simp [allZero]

/-- **Any damage of a last record is read without an error**: the record is dropped, or it is whole
    and is read. -/
theorem readRecords_damaged (h : rec.WellFormed) {tail : List UInt8}
    (hd : Damaged rec tail) (fuel off : Nat) (acc : ReplayEntries × Nat) :
    readRecords (fuel + 1) off tail acc = .ok acc ∨
      readRecords (fuel + 1) off tail acc = .ok (acc.1.insert (replayKey rec) rec, acc.2 + 1) := by
  obtain ⟨m, z, hmz, rfl⟩ := hd
  obtain ⟨hpos, hlt⟩ := length_marshalRecord h
  have hbytes := length_recordBytes rec
  have hlength : ((recordBytes rec).take m ++ replicate z 0).length = m + z := by
    rw [length_append, length_take, length_replicate, Nat.min_eq_left (by omega)]
  have hfits : ((recordBytes rec).take m ++ replicate z 0).length ≤
      replayHeader + maxReplayRecord := by
    simp only [maxReplayRecord]
    omega
  by_cases hwhole : (recordBytes rec).take m ++ replicate z 0 = recordBytes rec
  · have hturn := readRecords_recordBytes h fuel off [] acc
    rw [append_nil] at hturn
    rw [hwhole, hturn, readRecords]
    exact .inr rfl
  refine .inl ?_
  by_cases hnil : (recordBytes rec).take m ++ replicate z 0 = []
  · rw [hnil, readRecords]
  rw [readRecords_succ hnil]
  by_cases hshort : ((recordBytes rec).take m ++ replicate z 0).length < replayHeader
  · rw [if_pos hshort, torn_ok hfits]
  rw [if_neg hshort]
  by_cases hm : m < 4
  · -- nothing but zeros is left
    have hzero : (recordBytes rec).take m ++ replicate z 0 = replicate (m + z) 0 := by
      rw [take_recordBytes_small h hm, replicate_append_replicate]
    rw [hzero] at hfits ⊢
    rw [if_pos ⟨readBE32_replicate _, allZero_replicate _⟩, torn_ok hfits]
  have hread : readBE32 ((recordBytes rec).take m ++ replicate z 0) =
      (marshalRecord rec).length := by
    have hfour : 4 ≤ ((recordBytes rec).take m).length := by
      rw [length_take]
      omega
    have hhead := (read_recordBytes h []).1
    rw [append_nil, ← take_append_drop m (recordBytes rec), readBE32_append hfour] at hhead
    rw [readBE32_append hfour, hhead]
  have hmax : ¬ ((marshalRecord rec).length = 0 ∨ (marshalRecord rec).length > maxReplayRecord) := by
    simp only [maxReplayRecord]
    omega
  rw [hread, if_neg (by omega), if_neg hmax]
  by_cases hcut : ((recordBytes rec).take m ++ replicate z 0).length <
      replayHeader + (marshalRecord rec).length
  · rw [if_pos hcut, torn_ok hfits]
  rw [if_neg hcut]
  -- the full length with zeros at the end: the payload holds a NUL byte
  have hz : 0 < z := by
    refine Nat.pos_of_ne_zero fun hz => hwhole ?_
    rw [hz, replicate_zero, append_nil, take_of_length_le (by omega)]
  have hnul : (0 : UInt8) ∈ (((recordBytes rec).take m ++ replicate z 0).drop
      replayHeader).take (marshalRecord rec).length := by
    rw [take_of_length_le (by rw [length_drop]; omega), drop_append]
    refine mem_append_right _ ?_
    rw [drop_replicate, mem_replicate, length_take]
    exact ⟨by omega, rfl⟩
  rw [readPayload_nul hnul, if_pos (by omega)]

/-- The end of a file after its whole records: nothing, or what is left of one more. -/
def TailOf : Option ReplayRecord → List UInt8 → Prop
  | none, tail => tail = []
  | some rec, tail => Damaged rec tail

theorem length_encodeAll_ge (recs : List ReplayRecord) : recs.length ≤ (encodeAll recs).length := by
  induction recs with
  | nil => exact Nat.le_refl _
  | cons r recs ih =>
    rw [encodeAll, flatMap_cons, ← encodeAll, length_append, length_recordBytes, length_cons]
    simp only [replayHeader]
    omega

/-- **Reading a journal file.** A file of whole records with a damaged end reads as its whole
    records, possibly with the last one. -/
theorem readJournal_shape {recs : List ReplayRecord} {last : Option ReplayRecord}
    {tail : List UInt8} (hrecs : ∀ r ∈ recs ++ last.toList, r.WellFormed) (htail : TailOf last tail)
    (hsize : (encodeAll recs ++ tail).length ≤ maxJournalBytes) (entries : ReplayEntries) :
    ∃ kept n, (kept = recs ∨ kept = recs ++ last.toList) ∧
      readJournal (encodeAll recs ++ tail) entries = .ok (addRecords entries kept, n) := by
  have hwhole : ∀ r ∈ recs, r.WellFormed := fun r hr => hrecs r (mem_append_left _ hr)
  have hfuel := length_encodeAll_ge recs
  rw [readJournal, if_neg (by omega), length_append]
  cases last with
  | none =>
    obtain rfl : tail = [] := htail
    obtain ⟨slack, hslack⟩ := Nat.exists_eq_add_of_le' hfuel
    rw [hslack, length_nil, Nat.add_zero, readRecords_encodeAll hwhole, readRecords]
    exact ⟨recs, _, .inl rfl, rfl⟩
  | some rec =>
    by_cases hnil : tail = []
    · subst hnil
      obtain ⟨slack, hslack⟩ := Nat.exists_eq_add_of_le' hfuel
      rw [hslack, length_nil, Nat.add_zero, readRecords_encodeAll hwhole, readRecords]
      exact ⟨recs, _, .inl rfl, rfl⟩
    have hpos : 0 < tail.length := length_pos_of_ne_nil hnil
    obtain ⟨slack, hslack⟩ : ∃ slack, (encodeAll recs).length + tail.length =
        slack + 1 + recs.length :=
      ⟨(encodeAll recs).length - recs.length + (tail.length - 1), by omega⟩
    rw [hslack, readRecords_encodeAll hwhole]
    rcases readRecords_damaged (hrecs rec (mem_append_right _ mem_cons_self)) htail slack
      (0 + (encodeAll recs).length) (addRecords entries recs, 0 + recs.length) with hr | hr
    · exact ⟨recs, _, .inl rfl, hr⟩
    · refine ⟨recs ++ [rec], 0 + recs.length + 1, .inr rfl, ?_⟩
      rw [hr, addRecords, addRecords, foldl_append]
      rfl

end AgentMultiplexer.Access
