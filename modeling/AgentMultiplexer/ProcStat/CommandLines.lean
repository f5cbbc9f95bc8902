import AgentMultiplexer.Theory.Json

set_option autoImplicit false

/-! # Published command lines

The sampler publishes the command lines of processes. The argument after a secret-looking one is
replaced by a mark; in the others, what the patterns find is. The loop does not look at an argument
it replaces: if that one is secret-looking too, what follows it is taken like any other argument. -/

namespace AgentMultiplexer.ProcStat

open List

/-- An argument, by its runes: a byte that is not UTF-8 is U+FFFD. -/
abbrev Arg := List Char

def redacted : Arg := "<redacted>".toList

/-! ## Patterns -/

/-- What a pattern may leave unread, in the order in which it is tried. -/
abbrev Pattern := Arg → List Arg

def one (p : Char → Bool) : Pattern
  | c :: arg => if p c then [arg] else []
  | [] => []

/-- `p*`. -/
def many (p : Char → Bool) : Pattern
  | c :: arg => (if p c then many p arg else []) ++ [c :: arg]
  | [] => [[]]

def seq (ps : List Pattern) : Pattern :=
  ps.foldr (fun p q arg => (p arg).flatMap q) fun arg => [arg]

def alt (ps : List Pattern) : Pattern := fun arg => ps.flatMap (· arg)

def opt (p : Pattern) : Pattern := alt [p, seq []]

/-- `p{n,}`. -/
def atLeast (n : Nat) (p : Char → Bool) : Pattern := seq (replicate n (one p) ++ [many p])

/-- A text under `(?i)`. -/
def word (s : String) : Pattern := seq (s.toList.map fun c => one (Json.foldChar · = c))

def text (s : String) : Pattern := seq (s.toList.map fun c => one (· = c))

/-- `\w`. -/
def isWord (c : Char) : Bool := c.isAlphanum || c = '_'

/-- `\s`. -/
def isSpace (c : Char) : Bool := c ∈ ['\t', '\n', '\x0c', '\r', ' ']

/-- `[\w.-]` under `(?i)`. -/
def isFlagChar (c : Char) : Bool := isWord (Json.foldChar c) || c = '.' || c = '-'

def keyWord (s : String) : Pattern := seq [word s, opt (one (· ∈ ['-', '_'])), word "key"]

def secretWord : Pattern :=
  alt [word "token", word "secret", seq [word "passw", opt (word "or"), word "d"], word "pwd",
    keyWord "api", keyWord "access", keyWord "private", seq [word "auth", opt (word "orization")],
    word "bearer", seq [word "credential", opt (word "s")], word "cookie", keyWord "session"]

/-- `secretFlag`, which is matched against a whole argument. -/
def secretFlag (arg : Arg) : Bool :=
  [] ∈ seq [text "-", opt (text "-"), many isFlagChar, secretWord, many isFlagChar] arg

def secretLooking (arg : Arg) : Bool :=
  secretFlag arg || arg.map Json.foldChar = "bearer".toList ||
    arg.map Json.foldChar = "basic".toList

/-- A pattern in two parts, of which the first is kept, and what follows the mark. -/
structure Rule where
  /-- Whether the pattern may match after this character. -/
  starts : Option Char → Arg → Bool := fun _ _ => true
  keep : Pattern
  hide : Pattern
  rest : String := ""

/-- How much of the argument the match keeps, and how long it is. -/
def Rule.match? (rule : Rule) (before : Option Char) (arg : Arg) : Option (Nat × Nat) :=
  if rule.starts before arg then
    ((rule.keep arg).flatMap fun left =>
      (rule.hide left).map fun arg' => (arg.length - left.length, arg.length - arg'.length)).head?
  else none

/-- `ReplaceAllString`, after a character, and where the last match still has this length. -/
def Rule.replaceAll (rule : Rule) (before : Option Char) : Nat → Arg → Arg
  | _, [] => []
  | n + 1, c :: arg => rule.replaceAll (some c) n arg
  | 0, c :: arg =>
    match rule.match? before (c :: arg) with
    | some (kept, length) => (c :: arg).take kept ++ redacted ++ rule.rest.toList ++
        rule.replaceAll (some c) (length - 1) arg
    | none => c :: rule.replaceAll (some c) 0 arg

def secretAssign : Rule where
  keep := seq [many isFlagChar, secretWord, many isFlagChar, many isSpace, one (· ∈ ['=', ':']),
    many isSpace]
  hide := seq [one (!isSpace ·), many (· ≠ '\n')]

def urlPassword : Rule where
  keep := seq [text "://", atLeast 1 fun c => !isSpace c && c ∉ ['/', ':', '@'], text ":"]
  hide := seq [atLeast 1 fun c => !isSpace c && c ∉ ['/', '@'], text "@"]
  rest := "@"

def secretShape : Rule where
  starts before arg := before.any isWord != arg.head?.any isWord
  keep := seq []
  hide := alt [
    seq [text "gh", one (· ∈ "pousr".toList), text "_", atLeast 8 Char.isAlphanum],
    seq [text "github_pat_", atLeast 8 isWord],
    seq [text "sk-", atLeast 16 isTokenChar],
    seq [text "xox", one (· ∈ "abprs".toList), text "-",
      atLeast 8 fun c => c.isAlphanum || c = '-'],
    seq (text "AKIA" :: replicate 16 (one fun c => c.isDigit || c.isUpper)),
    seq [text "eyJ", atLeast 10 isTokenChar, text ".", atLeast 10 isTokenChar, text ".",
      atLeast 1 isTokenChar]]
where
  isTokenChar (c : Char) : Bool := isWord c || c = '-'

/-! ## The loop -/

/-- What the loop makes of an argument it looks at. -/
def redactArg (arg : Arg) : Arg :=
  if secretLooking arg then arg
  else [secretAssign, urlPassword, secretShape].foldl (fun arg rule => rule.replaceAll none 0 arg)
    arg

/-- `redactArgv`, from the argument on at which `redactNext` is this. -/
def redactArgv : Bool → List Arg → List Arg
  | _, [] => []
  | true, _ :: args => redacted :: redactArgv false args
  | false, arg :: args => redactArg arg :: redactArgv (secretLooking arg) args

def base (path : Arg) : Arg :=
  if path = [] then ['.']
  else
    let name := ((path.reverse.dropWhile (· = '/')).takeWhile (· ≠ '/')).reverse
    if name = [] then ['/'] else name

/-- The arguments `shortCmd` looks at. -/
def named : List Arg → List Arg
  | [] => []
  | program :: args => base program :: args

/-- The arguments `shortCmd` joins, and cuts to the length that is published. -/
def published (argv : List Arg) : List Arg := redactArgv false (named argv)

/-- `redactNext` after the arguments. -/
def redactNext (armed : Bool) (args : List Arg) : Bool :=
  args.foldl (fun armed arg => !armed && secretLooking arg) armed

theorem redactArgv_getElem? (armed : Bool) (args : List Arg) (i : Nat) :
    (redactArgv armed args)[i]? = args[i]?.map fun arg =>
      if redactNext armed (args.take i) then redacted else redactArg arg := by
  induction args generalizing armed i with
  | nil => cases armed <;> rfl
  | cons arg args ih =>
    cases i with
    | zero => cases armed <;> rfl
    | succ i =>
      cases armed with
      | true => exact ih false i
      | false => exact ih (secretLooking arg) i

theorem redactNext_succ {args : List Arg} {i : Nat} {arg : Arg} (h : args[i]? = some arg) :
    redactNext false (args.take (i + 1)) =
      (!redactNext false (args.take i) && secretLooking arg) := by
  rw [take_add_one, h, redactNext, foldl_append]
  rfl

/-- The argument `next` follows a secret-looking one that is not the program's name. -/
def Follows (argv : List Arg) (i : Nat) (next : Arg) : Prop :=
  0 < i ∧ argv[i]?.any secretLooking = true ∧ argv[i + 1]? = some next

/-- **What follows a secret-looking argument is hidden**, unless that argument was hidden itself and
    the patterns do not replace all of what follows. -/
theorem published_hides_iff (argv : List Arg) :
    (∀ i next, Follows argv i next → (published argv)[i + 1]? = some redacted) ↔
    ∀ i next, Follows argv i next → redactNext false ((named argv).take i) = true →
      redactArg next = redacted := by
  refine forall₂_congr fun i next => forall_congr' fun ⟨hi, hsecret, hnext⟩ => ?_
  obtain ⟨arg, harg, hsecret⟩ := (Option.any_eq_true _ _).mp hsecret
  -- only the program's name is changed before the loop
  have hsame : ∀ k, 0 < k → (named argv)[k]? = argv[k]? := by
    intro k hk
    obtain ⟨k, rfl⟩ := Nat.exists_eq_succ_of_ne_zero (Nat.ne_of_gt hk)
    cases argv <;> rfl
  have hsucc := redactNext_succ ((hsame i hi).trans harg)
  rw [hsecret, Bool.and_true] at hsucc
  rw [published, redactArgv_getElem?, hsame _ i.succ_pos, hnext, hsucc]
  cases redactNext false ((named argv).take i) <;> simp

def nestedFlags : List Arg :=
  ["/usr/bin/login", "--token", "--password", "hunter2"].map String.toList

/-- The password is shown: it follows a flag that was taken for the token. -/
theorem password_shown : Follows nestedFlags 2 "hunter2".toList ∧
    published nestedFlags = ["login", "--token", "<redacted>", "hunter2"].map String.toList := by
  unfold Follows
  decide +kernel

end AgentMultiplexer.ProcStat
