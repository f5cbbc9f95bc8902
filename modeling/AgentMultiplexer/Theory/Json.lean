import AgentMultiplexer.Theory.Bytes

set_option autoImplicit false

/-! # JSON as Go's `encoding/json` reads and writes it

Reading has three layers, as in the Go package: the scanner cuts the bytes into tokens and checks
their spelling, string literals are unquoted to text (escapes resolved, ill-formed UTF-8 replaced),
and the tokens are assembled into a value. A number keeps its literal, because the decoder parses
it according to the type of the field it is stored in. Writing is the quoting of strings with
`SetEscapeHTML(true)`, the default of `json.Marshal`, and decimal integers.

The two facts the development uses are that plain text survives the round trip and that no accepted
input contains a NUL byte. -/

namespace Json

open Bytes List Nat Option

/-! ## Strings -/

def quote : UInt8 := 0x22
def backslash : UInt8 := 0x5C

def isHexByte (b : UInt8) : Bool :=
  (0x30 ≤ b && b ≤ 0x39) || (0x41 ≤ b && b ≤ 0x46) || (0x61 ≤ b && b ≤ 0x66)

/-- The letters that may follow a backslash, `u` apart. -/
def isEscape (b : UInt8) : Bool :=
  b = quote || b = backslash || b = 0x2F || b = 0x62 || b = 0x66 || b = 0x6E || b = 0x72 ||
    b = 0x74

/-- The raw bytes of a string literal up to its closing quote, and what follows it. -/
def scanString : List UInt8 → Option (List UInt8 × List UInt8)
  | [] => none
  | b :: rest =>
    if b = quote then some ([], rest)
    else if b < 0x20 then none
    else if b = backslash then
      match rest with
      | [] => none
      | c :: rest =>
        if isEscape c then (scanString rest).map fun p => (b :: c :: p.1, p.2)
        else if c = 0x75 then
          match rest with
          | h₁ :: h₂ :: h₃ :: h₄ :: rest =>
            if isHexByte h₁ && isHexByte h₂ && isHexByte h₃ && isHexByte h₄ then
              (scanString rest).map fun p => (b :: c :: h₁ :: h₂ :: h₃ :: h₄ :: p.1, p.2)
            else none
          | _ => none
        else none
    else (scanString rest).map fun p => (b :: p.1, p.2)

def hexValue (b : UInt8) : Nat :=
  if b ≤ 0x39 then b.toNat - 0x30 else if b ≤ 0x46 then b.toNat - 0x37 else b.toNat - 0x57

/-- The UTF-16 unit of a `\u` escape at the head of the input. -/
def unicodeEscape : List UInt8 → Option (Nat × List UInt8)
  | b :: c :: h₁ :: h₂ :: h₃ :: h₄ :: rest =>
    if b = backslash ∧ c = 0x75 then
      some (hexValue h₁ * 4096 + hexValue h₂ * 256 + hexValue h₃ * 16 + hexValue h₄, rest)
    else none
  | _ => none

def escapeChar (b : UInt8) : Char :=
  if b = 0x62 then '\x08'
  else if b = 0x66 then '\x0c'
  else if b = 0x6E then '\n'
  else if b = 0x72 then '\r'
  else if b = 0x74 then '\t'
  else Char.ofNat b.toNat

/-- `utf8.DecodeRune`: the character at the head of the input and its width; a byte that starts no
    well-formed sequence is the replacement character, one byte wide. -/
def decodeRune (bytes : List UInt8) : Char × Nat :=
  match ByteArray.utf8DecodeChar? (bytes.take 4).toByteArray 0 with
  | some c => (c, c.utf8Size)
  | none => ('\ufffd', 1)

/-- The text of the raw bytes of a literal. The fuel is their number. -/
def unquote : Nat → List UInt8 → List Char
  | 0, _ => []
  | _, [] => []
  | fuel + 1, b :: rest =>
    if b = backslash then
      match unicodeEscape (b :: rest) with
      | some (unit, rest') =>
        if 0xD800 ≤ unit ∧ unit < 0xE000 then
          -- a surrogate: only a high one followed by a low one is a character
          match unicodeEscape rest' with
          | some (low, rest'') =>
            if unit < 0xDC00 ∧ 0xDC00 ≤ low ∧ low < 0xE000 then
              Char.ofNat ((unit - 0xD800) * 1024 + (low - 0xDC00) + 0x10000) ::
                unquote fuel rest''
            else '\ufffd' :: unquote fuel rest'
          | none => '\ufffd' :: unquote fuel rest'
        else Char.ofNat unit :: unquote fuel rest'
      | none =>
        match rest with
        | [] => []
        | c :: rest => escapeChar c :: unquote fuel rest
    else if b < 0x80 then Char.ofNat b.toNat :: unquote fuel rest
    else
      let (c, width) := decodeRune (b :: rest)
      c :: unquote fuel ((b :: rest).drop width)

/-! ## Tokens -/

inductive Token
  | lbrace
  | rbrace
  | lbrack
  | rbrack
  | colon
  | comma
  | str (s : String)
  | num (literal : List UInt8)
  | bool (b : Bool)
  | null
  deriving DecidableEq

def isDigit (b : UInt8) : Bool := 0x30 ≤ b && b ≤ 0x39

/-- The bytes a number literal is made of. After a number only a delimiter is well formed, so the
    scanner's literal is the longest run of them. -/
def isNumberByte (b : UInt8) : Bool :=
  isDigit b || b = 0x2B || b = 0x2D || b = 0x2E || b = 0x45 || b = 0x65

/-- The optional exponent of a number. -/
def validExponent : List UInt8 → Bool
  | [] => true
  | e :: rest =>
    (e = 0x45 || e = 0x65) &&
      match rest with
      | sign :: digits =>
        if sign = 0x2B || sign = 0x2D then !digits.isEmpty && digits.all isDigit
        else rest.all isDigit
      | [] => false

/-- The optional fraction of a number, and its exponent. -/
def validFraction : List UInt8 → Bool
  | [] => true
  | b :: rest =>
    if b = 0x2E then
      !(rest.takeWhile isDigit).isEmpty && validExponent (rest.dropWhile isDigit)
    else validExponent (b :: rest)

/-- The part of a number after its sign. -/
def validUnsigned : List UInt8 → Bool
  | [] => false
  | b :: rest =>
    if b = 0x30 then validFraction rest
    else isDigit b && validFraction (rest.dropWhile isDigit)

def validNumber : List UInt8 → Bool
  | [] => false
  | b :: rest => if b = 0x2D then validUnsigned rest else validUnsigned (b :: rest)

def isSpaceByte (b : UInt8) : Bool := b = 0x20 || b = 0x09 || b = 0x0A || b = 0x0D

/-- The one-byte tokens. -/
def punctuation (b : UInt8) : Option Token :=
  if b = 0x7B then some .lbrace
  else if b = 0x7D then some .rbrace
  else if b = 0x5B then some .lbrack
  else if b = 0x5D then some .rbrack
  else if b = 0x3A then some .colon
  else if b = 0x2C then some .comma
  else none

def scanWord (l : List UInt8) : Option (Token × List UInt8) :=
  if l.take 4 = [0x74, 0x72, 0x75, 0x65] then some (.bool true, l.drop 4)
  else if l.take 5 = [0x66, 0x61, 0x6C, 0x73, 0x65] then some (.bool false, l.drop 5)
  else if l.take 4 = [0x6E, 0x75, 0x6C, 0x6C] then some (.null, l.drop 4)
  else none

def scanNumber (l : List UInt8) : Option (Token × List UInt8) :=
  if validNumber (l.takeWhile isNumberByte) then
    some (.num (l.takeWhile isNumberByte), l.dropWhile isNumberByte)
  else none

/-- The token that starts with `b`, which is no space, and the bytes after it. -/
def scanToken (b : UInt8) (rest : List UInt8) : Option (Token × List UInt8) :=
  match punctuation b with
  | some token => some (token, rest)
  | none =>
    if b = quote then
      (scanString rest).map fun p => (.str (String.ofList (unquote p.1.length p.1)), p.2)
    else if isDigit b || b = 0x2D then scanNumber (b :: rest)
    else scanWord (b :: rest)

/-- The tokens of an input. The fuel bounds the number of tokens and spaces. -/
def scan : Nat → List UInt8 → Option (List Token)
  | _, [] => some []
  | 0, _ :: _ => none
  | fuel + 1, b :: rest =>
    if isSpaceByte b then scan fuel rest
    else
      match scanToken b rest with
      | none => none
      | some (token, rest) => (scan fuel rest).map (token :: ·)

/-! ## Values -/

inductive Value
  | null
  | bool (b : Bool)
  | num (literal : List UInt8)
  | str (s : String)
  | arr (items : List Value)
  | obj (fields : List (String × Value))

mutual

/-- A value at the head of the tokens. -/
def parseValue : Nat → List Token → Option (Value × List Token)
  | 0, _ => none
  | _ + 1, .null :: rest => some (.null, rest)
  | _ + 1, .bool b :: rest => some (.bool b, rest)
  | _ + 1, .num literal :: rest => some (.num literal, rest)
  | _ + 1, .str s :: rest => some (.str s, rest)
  | _ + 1, .lbrack :: .rbrack :: rest => some (.arr [], rest)
  | fuel + 1, .lbrack :: rest => (parseElements fuel rest).map fun p => (.arr p.1, p.2)
  | _ + 1, .lbrace :: .rbrace :: rest => some (.obj [], rest)
  | fuel + 1, .lbrace :: rest => (parseMembers fuel rest).map fun p => (.obj p.1, p.2)
  | _ + 1, _ => none

/-- The elements of an array, up to its closing bracket. -/
def parseElements : Nat → List Token → Option (List Value × List Token)
  | 0, _ => none
  | fuel + 1, tokens =>
    match parseValue fuel tokens with
    | some (v, .comma :: rest) => (parseElements fuel rest).map fun p => (v :: p.1, p.2)
    | some (v, .rbrack :: rest) => some ([v], rest)
    | _ => none

/-- The members of an object, up to its closing brace. -/
def parseMembers : Nat → List Token → Option (List (String × Value) × List Token)
  | 0, _ => none
  | fuel + 1, .str name :: .colon :: tokens =>
    match parseValue fuel tokens with
    | some (v, .comma :: rest) => (parseMembers fuel rest).map fun p => ((name, v) :: p.1, p.2)
    | some (v, .rbrace :: rest) => some ([(name, v)], rest)
    | _ => none
  | _ + 1, _ => none

end

/-- The value of an input that is one JSON text. -/
def parse (input : List UInt8) : Option Value :=
  match scan input.length input with
  | none => none
  | some tokens =>
    match parseValue (2 * tokens.length + 1) tokens with
    | some (v, []) => some v
    | _ => none

/-- Names are matched to struct fields up to simple case folding: the two letters outside ASCII that
    fold to an ASCII one are the long s and the Kelvin sign. -/
def foldChar (c : Char) : Char :=
  if c = '\u017f' then 's' else if c = '\u212a' then 'k' else c.toLower

/-- Whether a member name of the input names the struct field. -/
def namesField (name field : String) : Bool :=
  name.toList.map foldChar = field.toList.map foldChar

def parseDigits (literal : List UInt8) : Option Nat :=
  if literal.isEmpty || !literal.all isDigit then none
  else some (Nat.ofDigitChars 10 (literal.map fun b => Char.ofNat b.toNat) 0)

/-- `strconv.ParseUint(literal, 10, 64)`. -/
def parseUint64 (literal : List UInt8) : Option Nat :=
  (parseDigits literal).filter fun n => n < 2 ^ 64

/-- `strconv.ParseInt(literal, 10, 64)`, for a literal of the number grammar. -/
def parseInt64 : List UInt8 → Option Int
  | [] => none
  | b :: rest =>
    if b = 0x2D then
      ((parseDigits rest).filter fun n => n ≤ 2 ^ 63).map fun n => -(n : Int)
    else ((parseDigits (b :: rest)).filter fun n => n < 2 ^ 63).map fun n => (n : Int)

section Store

variable {ρ : Type} (old : ρ)

/-- Store a value in a string field. A `null` leaves the struct as it is, any other type is an
    error. -/
def storeString (store : String → ρ) : Value → Option ρ
  | .str s => some (store s)
  | .null => some old
  | _ => none

def storeUint64 (store : Nat → ρ) : Value → Option ρ
  | .num literal => (parseUint64 literal).map store
  | .null => some old
  | _ => none

def storeInt64 (store : Int → ρ) : Value → Option ρ
  | .num literal => (parseInt64 literal).map store
  | .null => some old
  | _ => none

end Store

/-! ## Writing -/

def hexDigitByte (n : Nat) : UInt8 := UInt8.ofNat (if n < 10 then 0x30 + n else 0x57 + n)

def writeUnicode (n : Nat) : List UInt8 :=
  [backslash, 0x75, hexDigitByte (n / 4096 % 16), hexDigitByte (n / 256 % 16),
    hexDigitByte (n / 16 % 16), hexDigitByte (n % 16)]

/-- One character of a quoted string, with the HTML-relevant ones escaped. -/
def writeChar (c : Char) : List UInt8 :=
  if c = '"' then [backslash, quote]
  else if c = '\\' then [backslash, backslash]
  else if c = '\x08' then [backslash, 0x62]
  else if c = '\x0c' then [backslash, 0x66]
  else if c = '\n' then [backslash, 0x6E]
  else if c = '\r' then [backslash, 0x72]
  else if c = '\t' then [backslash, 0x74]
  else if c.toNat < 0x20 ∨ c = '<' ∨ c = '>' ∨ c = '&' ∨ c.toNat = 0x2028 ∨ c.toNat = 0x2029 then
    writeUnicode c.toNat
  else String.utf8EncodeChar c

def writeString (s : String) : List UInt8 := quote :: (s.toList.flatMap writeChar ++ [quote])

def writeNat (n : Nat) : List UInt8 := (Nat.toDigits 10 n).map ofAscii

def writeInt : Int → List UInt8
  | .ofNat n => writeNat n
  | .negSucc n => 0x2D :: writeNat (n + 1)

/-- The scalar values a struct of strings and integers is written with. -/
inductive Scalar
  | str (s : String)
  | num (literal : List UInt8)

def Scalar.write : Scalar → List UInt8
  | .str s => writeString s
  | .num literal => literal

def Scalar.value : Scalar → Value
  | .str s => .str s
  | .num literal => .num literal

def Scalar.token : Scalar → Token
  | .str s => .str s
  | .num literal => .num literal

/-- The members of an object after its opening brace. -/
def writeMembers : List (String × Scalar) → List UInt8
  | [] => [0x7D]
  | [(name, v)] => writeString name ++ 0x3A :: (v.write ++ [0x7D])
  | (name, v) :: next :: rest =>
    writeString name ++ 0x3A :: (v.write ++ 0x2C :: writeMembers (next :: rest))

/-- A struct of scalar fields, in field order. -/
def writeObject (fields : List (String × Scalar)) : List UInt8 := 0x7B :: writeMembers fields

/-! ## An accepted input has no NUL byte -/

theorem nul_mem_of_scanString {l raw rest : List UInt8} (h : scanString l = some (raw, rest))
    (hnul : 0 ∈ l) : 0 ∈ rest := by
  fun_induction scanString l generalizing raw with
  | case1 | case3 | case4 | case7 | case8 | case9 => cases h
  | case2 tail =>
    cases h
    exact (mem_cons.mp hnul).resolve_left (by decide)
  | case5 c tail hc hq hlow ih =>
    obtain ⟨p, hp, heq⟩ := map_eq_some_iff.mp h
    cases heq
    have hne : (0 : UInt8) ≠ c := by
      rintro rfl
      exact absurd hc (by decide)
    have hmem : 0 ∈ c :: tail := (mem_cons.mp hnul).resolve_left (by decide)
    exact ih hp ((mem_cons.mp hmem).resolve_left hne)
  | case6 h1 h2 h3 h4 tail hhex hq hlow hesc ih =>
    obtain ⟨p, hp, heq⟩ := map_eq_some_iff.mp h
    cases heq
    have hne : ∀ b, isHexByte b = true → (0 : UInt8) ≠ b := by
      rintro _ hb rfl
      exact absurd hb (by decide)
    simp only [Bool.and_eq_true] at hhex
    obtain ⟨⟨⟨hh1, hh2⟩, hh3⟩, hh4⟩ := hhex
    refine ih hp ?_
    simpa [hne _ hh1, hne _ hh2, hne _ hh3, hne _ hh4, backslash] using hnul
  | case10 b tail hq hlow hb ih =>
    obtain ⟨p, hp, heq⟩ := map_eq_some_iff.mp h
    cases heq
    refine ih hp ((mem_cons.mp hnul).resolve_left ?_)
    rintro rfl
    exact hlow (by decide)

variable {l : List UInt8}

theorem nul_mem_dropWhile {p : UInt8 → Bool} (hp : p 0 = false) (hnul : 0 ∈ l) :
    0 ∈ l.dropWhile p := by
  have hmem : 0 ∈ l.takeWhile p ++ l.dropWhile p := by rwa [takeWhile_append_dropWhile]
  refine (mem_append.mp hmem).resolve_left fun h => ?_
  have hpos : p 0 = true := all_eq_true.mp all_takeWhile 0 h
  exact absurd hpos (by simp [hp])

variable {n : Nat}

theorem nul_mem_drop {l word : List UInt8} (hword : l.take n = word) (hno : 0 ∉ word)
    (hnul : 0 ∈ l) : 0 ∈ l.drop n := by
  have hmem : 0 ∈ l.take n ++ l.drop n := by rwa [take_append_drop]
  exact (mem_append.mp hmem).resolve_left (hword ▸ hno)

theorem punctuation_nul : punctuation 0 = none := by decide

variable {token : Token}

theorem nul_mem_of_scanWord {l rest : List UInt8}
    (h : scanWord l = some (token, rest)) (hnul : 0 ∈ l) : 0 ∈ rest := by
  unfold scanWord at h
  split at h
  next hword =>
    cases h
    exact nul_mem_drop hword (by decide) hnul
  split at h
  next hword =>
    cases h
    exact nul_mem_drop hword (by decide) hnul
  split_ifs at h with hword
  cases h
  exact nul_mem_drop hword (by decide) hnul

variable {b : UInt8}

theorem nul_mem_of_scanToken {l rest : List UInt8}
    (h : scanToken b l = some (token, rest)) (hnul : 0 ∈ b :: l) : 0 ∈ rest := by
  have htail : b ≠ 0 → 0 ∈ l := fun hb => (mem_cons.mp hnul).resolve_left (Ne.symm hb)
  unfold scanToken at h
  split at h
  next hp =>
    cases h
    refine htail ?_
    rintro rfl
    exact absurd hp (by simp [punctuation_nul])
  next =>
    split at h
    next hq =>
      obtain ⟨p, hscan, heq⟩ := map_eq_some_iff.mp h
      cases heq
      exact nul_mem_of_scanString hscan (htail (hq ▸ by decide))
    split at h
    next =>
      unfold scanNumber at h
      split_ifs at h
      cases h
      exact nul_mem_dropWhile (by decide) hnul
    next => exact nul_mem_of_scanWord h hnul

/-- **The scanner accepts no NUL byte**, inside a string or out. -/
theorem scan_no_nul {fuel : Nat} {tokens : List Token} (h : scan fuel l = some tokens) : 0 ∉ l := by
  intro hnul
  induction fuel generalizing l tokens with
  | zero =>
    cases l with
    | nil => cases hnul
    | cons b rest => cases h
  | succ fuel ih =>
    cases l with
    | nil => cases hnul
    | cons b rest =>
      rw [scan] at h
      split at h
      next hb =>
        refine ih h ((mem_cons.mp hnul).resolve_left ?_)
        rintro rfl
        exact absurd hb (by decide)
      next =>
        split at h
        next => cases h
        next htoken =>
        obtain ⟨_, hscan, _⟩ := map_eq_some_iff.mp h
        exact ih hscan (nul_mem_of_scanToken htoken hnul)

theorem parse_no_nul {v : Value} (h : parse l = some v) : 0 ∉ l := by
  unfold parse at h
  split at h
  next => cases h
  next hscan => exact scan_no_nul hscan

/-! ## Plain text and integers survive the round trip -/

/-- An ASCII character that is written as itself. -/
def isPlain (c : Char) : Bool :=
  isAscii c && 0x20 ≤ c.toNat && c != '"' && c != '\\' && c != '<' && c != '>' && c != '&'

/-- What the definition of a plain character gives, at the level of its byte. -/
theorem ofAscii_of_isPlain {c : Char} (hc : isPlain c) :
    writeChar c = [ofAscii c] ∧ ofAscii c ≠ quote ∧ ofAscii c ≠ backslash ∧ ¬ ofAscii c < 0x20 ∧
      ofAscii c < 0x80 ∧ .ofNat (ofAscii c).toNat = c := by
  simp only [isPlain, Bool.and_eq_true, decide_eq_true_eq, bne_iff_ne] at hc
  obtain ⟨⟨⟨⟨⟨⟨hascii, hlow⟩, hquote⟩, hback⟩, hlt⟩, hgt⟩, hamp⟩ := hc
  have hlt128 : c.toNat < 128 := of_decide_eq_true hascii
  have hnat : (ofAscii c).toNat = c.toNat := toNat_ofAscii hascii
  have hbyte : ∀ d : Char, c ≠ d → isAscii d → ofAscii c ≠ ofAscii d := by
    intro d hne hd heq
    exact hne (by rw [← ofNat_ofAscii hascii, heq, ofNat_ofAscii hd])
  refine ⟨?_, ?_, ?_, ?_, ?_, ofNat_ofAscii hascii⟩
  · have hne : ∀ d : Char, d.toNat < 0x20 → c ≠ d := by
      rintro d hd rfl
      omega
    rw [writeChar, if_neg hquote, if_neg hback, if_neg (hne _ (by decide)),
      if_neg (hne _ (by decide)), if_neg (hne _ (by decide)), if_neg (hne _ (by decide)),
      if_neg (hne _ (by decide)), if_neg, utf8EncodeChar_ascii hascii]
    simp only [hlt, hgt, hamp, false_or, not_or]
    omega
  · exact hbyte '"' hquote (by decide)
  · exact hbyte '\\' hback (by decide)
  · rw [UInt8.lt_iff_toNat_lt, hnat]
    exact not_lt.mpr hlow
  · rw [UInt8.lt_iff_toNat_lt, hnat]
    exact hlt128

variable {cs : List Char}

theorem scanString_plain (hcs : ∀ c ∈ cs, isPlain c) (rest : List UInt8) :
    scanString (cs.map ofAscii ++ quote :: rest) = some (cs.map ofAscii, rest) := by
  induction cs with
  | nil =>
    unfold scanString
    simp
  | cons c cs ih =>
    obtain ⟨-, hq, hb, hlow, -, -⟩ := ofAscii_of_isPlain (hcs c mem_cons_self)
    unfold scanString
    simp [hq, hb, hlow, ih fun d hd => hcs d (mem_cons_of_mem _ hd)]

theorem unquote_plain (hcs : ∀ c ∈ cs, isPlain c) :
    unquote (cs.map ofAscii).length (cs.map ofAscii) = cs := by
  induction cs with
  | nil => rfl
  | cons c cs ih =>
    obtain ⟨-, -, hb, -, hascii, hchar⟩ := ofAscii_of_isPlain (hcs c mem_cons_self)
    have htail := ih fun d hd => hcs d (mem_cons_of_mem _ hd)
    unfold unquote
    simpa [hb, hascii, hchar] using htail

theorem flatMap_writeChar_plain (hcs : ∀ c ∈ cs, isPlain c) :
    cs.flatMap writeChar = cs.map ofAscii := by
  induction cs with
  | nil => rfl
  | cons c cs ih =>
    rw [flatMap_cons, (ofAscii_of_isPlain (hcs c mem_cons_self)).1,
      ih fun d hd => hcs d (mem_cons_of_mem _ hd)]
    rfl

theorem scanToken_writeString {s : String} (hs : ∀ c ∈ s.toList, isPlain c) (rest : List UInt8) :
    scanToken quote (s.toList.flatMap writeChar ++ quote :: rest) = some (.str s, rest) := by
  have hpunct : punctuation quote = none := by decide
  rw [flatMap_writeChar_plain hs]
  simp only [scanToken, hpunct, if_true, scanString_plain hs, map_some, unquote_plain hs,
    String.ofList_toList]

theorem isDigit_ofAscii {c : Char} (hc : c.isDigit) : isAscii c ∧ isDigit (ofAscii c) := by
  have hc' : 48 ≤ c.toNat ∧ c.toNat ≤ 57 := by
    simpa [Char.isDigit, UInt32.le_iff_toNat_le] using hc
  have hascii : isAscii c := decide_eq_true (by omega)
  refine ⟨hascii, ?_⟩
  simp only [isDigit, UInt8.le_iff_toNat_le, toNat_ofAscii hascii, Bool.and_eq_true,
    decide_eq_true_eq]
  exact hc'

theorem isDigit_writeNat : ∀ b ∈ writeNat n, isDigit b := by
  intro b hb
  obtain ⟨c, hc, rfl⟩ := mem_map.mp hb
  exact (isDigit_ofAscii (isDigit_of_mem_toDigits (by decide) (by decide) hc)).2

theorem writeNat_cons (hn : 0 < n) : ∃ b rest, writeNat n = b :: rest ∧ b ≠ 0x30 := by
  induction n using Nat.strongRecOn with
  | ind n ih =>
    by_cases hsmall : n < 10
    · have hdigit : ∀ m : Fin 10, 0 < m.val → ofAscii (digitChar m) ≠ 0x30 := by decide
      refine ⟨ofAscii (digitChar n), [], ?_, hdigit ⟨n, hsmall⟩ hn⟩
      rw [writeNat, toDigits_of_lt_base hsmall]
      rfl
    · obtain ⟨b, rest, hb, hne⟩ := ih (n / 10) (by omega) (by omega)
      refine ⟨b, rest ++ [ofAscii (digitChar (n % 10))], ?_, hne⟩
      rw [writeNat] at hb
      rw [writeNat, toDigits_of_base_le (by decide) (by omega), map_append, hb]
      rfl

theorem validUnsigned_writeNat (n : Nat) : validUnsigned (writeNat n) := by
  rcases Nat.eq_zero_or_pos n with rfl | hn
  · decide
  obtain ⟨b, rest, heq, hb⟩ := writeNat_cons hn
  have hdigits : ∀ d ∈ b :: rest, isDigit d := heq ▸ isDigit_writeNat
  have hrest : rest.dropWhile isDigit = [] := by
    rw [← append_nil rest, dropWhile_append_of_pos fun d hd => hdigits d (mem_cons_of_mem _ hd)]
    rfl
  rw [heq, validUnsigned, if_neg hb, hdigits b mem_cons_self, hrest]
  rfl

theorem parseDigits_writeNat (n : Nat) : parseDigits (writeNat n) = some n := by
  have hne : (writeNat n).isEmpty = false := by
    simp [writeNat, toDigits_ne_nil]
  have hall : (writeNat n).all isDigit = true := all_eq_true.mpr isDigit_writeNat
  have hback : (writeNat n).map (fun b => Char.ofNat b.toNat) = toDigits 10 n := by
    rw [writeNat, List.map_map]
    refine (map_congr_left fun c hc => ?_).trans (map_id _)
    exact ofNat_ofAscii (isDigit_ofAscii (isDigit_of_mem_toDigits (by decide) (by decide) hc)).1
  simp [parseDigits, hne, hall, hback, ofDigitChars_ten_toDigits]

theorem parseUint64_writeNat (hn : n < 2 ^ 64) : parseUint64 (writeNat n) = some n := by
  rw [parseUint64, parseDigits_writeNat, filter_some, if_pos (decide_eq_true hn)]

theorem exists_writeNat_eq_cons (n : Nat) : ∃ b rest, writeNat n = b :: rest ∧ isDigit b := by
  cases h : writeNat n with
  | nil => exact absurd (map_eq_nil_iff.mp h) toDigits_ne_nil
  | cons b rest => exact ⟨b, rest, rfl, isDigit_writeNat b (h ▸ mem_cons_self)⟩

theorem ne_minus_of_isDigit (hb : isDigit b) : b ≠ 0x2D := by
  rintro rfl
  exact absurd hb (by decide)

theorem parseInt64_writeInt {i : Int} (hlow : -2 ^ 63 ≤ i) (hhigh : i < 2 ^ 63) :
    parseInt64 (writeInt i) = some i := by
  cases i with
  | ofNat n =>
    have hn : n < 2 ^ 63 := Int.ofNat_lt.mp hhigh
    obtain ⟨b, rest, heq, hb⟩ := exists_writeNat_eq_cons n
    rw [writeInt, heq, parseInt64, if_neg (ne_minus_of_isDigit hb), ← heq, parseDigits_writeNat,
      filter_some, if_pos (decide_eq_true hn)]
    rfl
  | negSucc n =>
    have hn : n + 1 ≤ 2 ^ 63 := by omega
    rw [writeInt, parseInt64, if_pos rfl, parseDigits_writeNat, filter_some,
      if_pos (decide_eq_true hn)]
    rfl

theorem length_writeNat_le {k : Nat} (hk : 0 < k) (hn : n < 10 ^ k) : (writeNat n).length ≤ k := by
  rw [writeNat, length_map]
  exact (length_toDigits_le_iff (by decide) hk).mpr hn

theorem length_writeInt_le {i : Int} (hlow : -2 ^ 63 ≤ i) (hhigh : i < 2 ^ 63) :
    (writeInt i).length ≤ 20 := by
  cases i with
  | ofNat n =>
    have hn : n < 2 ^ 63 := Int.ofNat_lt.mp hhigh
    exact le_trans (length_writeNat_le (k := 19) (by decide) (by omega)) (by decide)
  | negSucc n => exact succ_le_succ (length_writeNat_le (k := 19) (by decide) (by omega))

/-! ### Objects of scalars -/

/-- A scalar whose spelling is one token that means it. -/
def Scalar.Plain : Scalar → Prop
  | .str s => ∀ c ∈ s.toList, isPlain c
  | .num literal => validNumber literal ∧ ∀ b ∈ literal, isNumberByte b

theorem isNumberByte_of_isDigit (hb : isDigit b) : isNumberByte b := by
  simp [isNumberByte, hb]

theorem plain_writeNat (n : Nat) : (Scalar.num (writeNat n)).Plain := by
  refine ⟨?_, fun b hb => isNumberByte_of_isDigit (isDigit_writeNat b hb)⟩
  obtain ⟨b, rest, heq, hb⟩ := exists_writeNat_eq_cons n
  rw [heq, validNumber, if_neg (ne_minus_of_isDigit hb), ← heq]
  exact validUnsigned_writeNat n

theorem plain_writeInt (i : Int) : (Scalar.num (writeInt i)).Plain := by
  cases i with
  | ofNat n => exact plain_writeNat n
  | negSucc n =>
    refine ⟨validUnsigned_writeNat (n + 1), forall_mem_cons.mpr ⟨by decide, fun b hb => ?_⟩⟩
    exact isNumberByte_of_isDigit (isDigit_writeNat b hb)

/-- The first byte of a number literal starts no other token. -/
theorem scanToken_number (hb : (isDigit b || b = 0x2D) = true) (rest : List UInt8) :
    isSpaceByte b = false ∧ scanToken b rest = scanNumber (b :: rest) := by
  have hne : ∀ c : UInt8, (isDigit c || c = 0x2D) = false → b ≠ c := by
    rintro c hc rfl
    exact absurd hb (by simp [hc])
  have hpunct : punctuation b = none := by
    simp [punctuation, hne 0x7B (by decide), hne 0x7D (by decide), hne 0x5B (by decide),
      hne 0x5D (by decide), hne 0x3A (by decide), hne 0x2C (by decide)]
  refine ⟨?_, ?_⟩
  · simp [isSpaceByte, hne 0x20 (by decide), hne 0x09 (by decide), hne 0x0A (by decide),
      hne 0x0D (by decide)]
  · simp only [scanToken, hpunct, if_neg (hne quote (by decide)), if_pos hb]

theorem validNumber_head {rest : List UInt8} (h : validNumber (b :: rest)) :
    (isDigit b || b = 0x2D) = true := by
  by_cases hminus : b = 0x2D
  · simp [hminus]
  rw [validNumber, if_neg hminus, validUnsigned] at h
  by_cases hzero : b = 0x30
  · subst hzero
    decide
  · rw [if_neg hzero, Bool.and_eq_true] at h
    simp [h.1]

/-- **A plain scalar is read back as its one token**, whatever delimiter follows it. -/
theorem scan_write {v : Scalar} (hv : v.Plain) (fuel : Nat) {d : UInt8}
    (hd : isNumberByte d = false) (rest : List UInt8) :
    scan (fuel + 1) (v.write ++ d :: rest) = (scan fuel (d :: rest)).map (v.token :: ·) := by
  cases v with
  | str s =>
    have hspace : isSpaceByte quote = false := by decide
    rw [Scalar.write, writeString, cons_append, append_assoc, singleton_append, scan,
      hspace, scanToken_writeString hv]
    rfl
  | num literal =>
    obtain ⟨hvalid, hbytes⟩ := hv
    cases literal with
    | nil => cases hvalid
    | cons b tail =>
      have hb : (isDigit b || b = 0x2D) = true := validNumber_head hvalid
      obtain ⟨hspace, htoken⟩ := scanToken_number hb (tail ++ d :: rest)
      have htake : (b :: (tail ++ d :: rest)).takeWhile isNumberByte = b :: tail := by
        rw [← cons_append, takeWhile_append_of_pos hbytes]
        simp [hd]
      have hdrop : (b :: (tail ++ d :: rest)).dropWhile isNumberByte = d :: rest := by
        rw [← cons_append, dropWhile_append_of_pos hbytes]
        simp [hd]
      rw [Scalar.write, cons_append, scan, hspace, htoken, scanNumber, htake, hdrop, if_pos hvalid]
      rfl

/-- The tokens of the members of an object after its opening brace. -/
def memberTokens : List (String × Scalar) → List Token
  | [] => [.rbrace]
  | [(name, v)] => [.str name, .colon, v.token, .rbrace]
  | (name, v) :: next :: rest =>
    .str name :: .colon :: v.token :: .comma :: memberTokens (next :: rest)

/-- Every field has a plain name and a plain value. -/
def PlainFields (fields : List (String × Scalar)) : Prop :=
  ∀ f ∈ fields, (Scalar.str f.1).Plain ∧ f.2.Plain

theorem scan_punctuation (hspace : isSpaceByte b = false)
    (hb : punctuation b = some token) (fuel : Nat) (rest : List UInt8) :
    scan (fuel + 1) (b :: rest) = (scan fuel rest).map (token :: ·) := by
  rw [scan, hspace, scanToken, hb]
  rfl

/-- The name and value of one member, up to the delimiter after it. -/
theorem scan_member {name : String} {v : Scalar} (hname : (Scalar.str name).Plain) (hv : v.Plain)
    (fuel : Nat) {d : UInt8} (hd : isNumberByte d = false) (rest : List UInt8) :
    scan (fuel + 3) (writeString name ++ 0x3A :: (v.write ++ d :: rest)) =
      (scan fuel (d :: rest)).map fun tokens => .str name :: .colon :: v.token :: tokens := by
  have hstr := scan_write hname (fuel + 2) (d := 0x3A) (by decide) (v.write ++ d :: rest)
  rw [Scalar.write] at hstr
  have hcolon : punctuation 0x3A = some .colon := by decide
  rw [hstr, scan_punctuation (by decide) hcolon, scan_write hv fuel hd]
  simp only [Option.map_map]
  rfl

theorem scan_writeMembers {fields : List (String × Scalar)} (h : PlainFields fields) (fuel : Nat) :
    scan (fuel + (memberTokens fields).length) (writeMembers fields) =
      some (memberTokens fields) := by
  have hclose : ∀ fuel, scan (fuel + 1) [0x7D] = some [.rbrace] := by
    intro fuel
    rw [scan_punctuation (by decide) (show punctuation 0x7D = some .rbrace by decide), scan]
    rfl
  have hcomma : punctuation 0x2C = some .comma := by decide
  induction fields using memberTokens.induct with
  | case1 => exact hclose fuel
  | case2 name v =>
    obtain ⟨hname, hv⟩ := h _ mem_cons_self
    have hmember := scan_member hname hv (fuel + 1) (d := 0x7D) (by decide) []
    rw [hclose] at hmember
    exact hmember
  | case3 name v next rest ih =>
    obtain ⟨hname, hv⟩ := h _ mem_cons_self
    have hrest := ih fun f hf => h f (mem_cons_of_mem _ hf)
    have hmember := scan_member hname hv (fuel + (memberTokens (next :: rest)).length + 1)
      (d := 0x2C) (by decide) (writeMembers (next :: rest))
    rw [scan_punctuation (by decide) hcomma, hrest] at hmember
    exact hmember

/-- Every token is spelt with a byte at least, so the length of the input is fuel enough. -/
theorem length_memberTokens_le (fields : List (String × Scalar)) :
    (memberTokens fields).length ≤ (writeMembers fields).length := by
  induction fields using memberTokens.induct with
  | case1 => decide
  | case2 | case3 =>
    simp only [memberTokens, writeMembers, writeString, length_cons, length_append, length_nil]
    omega

theorem parseValue_token (v : Scalar) (fuel : Nat) (rest : List Token) :
    parseValue (fuel + 1) (v.token :: rest) = some (v.value, rest) := by
  cases v <;> rfl

theorem length_memberTokens (f : String × Scalar) (fields : List (String × Scalar)) :
    (memberTokens (f :: fields)).length = 4 * (fields.length + 1) := by
  induction fields generalizing f with
  | nil => rfl
  | cons next rest ih =>
    rw [memberTokens, length_cons, length_cons, length_cons, length_cons, ih next, length_cons]
    omega

theorem parseMembers_memberTokens (f : String × Scalar) (fields : List (String × Scalar))
    (fuel : Nat) (hfuel : fields.length + 2 ≤ fuel) :
    parseMembers fuel (memberTokens (f :: fields)) =
      some ((f :: fields).map fun f => (f.1, f.2.value), []) := by
  induction fields generalizing f fuel with
  | nil =>
    obtain ⟨m, rfl⟩ := Nat.exists_eq_add_of_le' hfuel
    rw [memberTokens, length_nil, zero_add, parseMembers, parseValue_token]
    rfl
  | cons next rest ih =>
    obtain ⟨m, rfl⟩ := Nat.exists_eq_add_of_le' (Nat.le_trans (Nat.le_add_left 2 _) hfuel)
    have hrest := ih next (m + 1) (by simp only [length_cons] at hfuel; omega)
    rw [memberTokens, parseMembers, parseValue_token]
    simp only [hrest, map_some]
    rfl

/-- **A struct of plain scalars survives the round trip.** -/
theorem parse_writeObject {fields : List (String × Scalar)} (h : PlainFields fields) :
    parse (writeObject fields) = some (.obj (fields.map fun f => (f.1, f.2.value))) := by
  have hopen : punctuation 0x7B = some .lbrace := by decide
  obtain ⟨slack, hslack⟩ := Nat.exists_eq_add_of_le' (length_memberTokens_le fields)
  have hscan : scan (writeObject fields).length (writeObject fields) =
      some (.lbrace :: memberTokens fields) := by
    rw [writeObject, length_cons, scan_punctuation (by decide) hopen, hslack, scan_writeMembers h]
    rfl
  rw [parse, hscan]
  cases fields with
  | nil => rfl
  | cons f fields =>
    have hlength := length_memberTokens f fields
    have hmembers := parseMembers_memberTokens f fields
      (2 * (.lbrace :: memberTokens (f :: fields)).length)
      (by rw [length_cons, hlength]; omega)
    have hvalue : parseValue (2 * (.lbrace :: memberTokens (f :: fields)).length + 1)
        (.lbrace :: memberTokens (f :: fields)) =
          some (.obj ((f :: fields).map fun f => (f.1, f.2.value)), []) := by
      obtain ⟨rest, hrest⟩ : ∃ rest, memberTokens (f :: fields) = .str f.1 :: rest := by
        cases fields with
        | nil | cons => exact ⟨_, rfl⟩
      rw [hrest] at hmembers ⊢
      rw [parseValue, hmembers]
      · rfl
      · exact nofun
    simp only [hvalue]

end Json
