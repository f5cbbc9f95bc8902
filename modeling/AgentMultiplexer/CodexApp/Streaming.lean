import AgentMultiplexer.Theory.Transducer

set_option autoImplicit false

/-! # The text of assistant messages

The App Server streams a message in pieces and completes it with its whole text. The mapper passes
the pieces on, and closes an item with an empty text if something was streamed under its id before.
It remembers these ids without their turns, for as long as the supervisor lives: a reconnect after
which pieces are missing does not clear them. -/

namespace AgentMultiplexer.CodexApp

open List

/-- `conversationItemKey`. -/
structure ItemKey where
  thread : String
  turn : String
  item : String
  deriving DecidableEq

/-- A notification of the pinned thread, as far as the mapper keeps account of texts. -/
inductive Notification
  /-- `item/agentMessage/delta`. -/
  | textDelta (key : ItemKey) (delta : String)
  /-- `item/reasoning/textDelta` and `item/reasoning/summaryTextDelta`. -/
  | thinkingDelta (key : ItemKey) (delta : String)
  /-- `item/completed` of an `agentMessage`. -/
  | messageCompleted (key : ItemKey) (text : String)
  | reasoningCompleted (key : ItemKey) (text : String)
  | other

inductive ChunkType
  | text
  | thinking
  deriving DecidableEq

/-- A text or thinking event under the ids of its notification; only a text has `final`. -/
structure Chunk where
  type : ChunkType
  key : ItemKey
  text : String
  final : Option Bool

def ChunkType.final : ChunkType → Bool → Option Bool
  | .text, final => some final
  | .thinking, _ => none

/-- `streamState`, without the prompts. -/
structure StreamState where
  streamed : List String
  replies : List ItemKey

namespace StreamState

variable (st : StreamState)

def deltaChunk (type : ChunkType) (key : ItemKey) (delta : String) : StreamState × List Chunk :=
  ({ st with streamed := key.item :: st.streamed }, [⟨type, key, delta, type.final false⟩])

/-- `closeOrEmitText`, of a completed item. -/
def closeOrEmitText (type : ChunkType) (key : ItemKey) (text : String) : Chunk :=
  ⟨type, key, if key.item ∈ st.streamed then "" else text, type.final true⟩

def mapNotification : Notification → StreamState × List Chunk
  | .textDelta key delta => st.deltaChunk .text key delta
  | .thinkingDelta key delta => st.deltaChunk .thinking key delta
  | .messageCompleted key text =>
    if key.item ≠ "" then
      if key ∈ st.replies then (st, [])
      else ({ st with replies := key :: st.replies }, [st.closeOrEmitText .text key text])
    else (st, [st.closeOrEmitText .text key text])
  | .reasoningCompleted key text => (st, [st.closeOrEmitText .thinking key text])
  | .other => (st, [])

end StreamState

/-- The mapper of a supervisor, over all its connections. -/
def mapper : Transducer StreamState Notification Chunk := ⟨⟨[], []⟩, StreamState.mapNotification⟩

/-- The text that is shown for a message. -/
def shown (key : ItemKey) (chunks : List Chunk) : List Char :=
  chunks.flatMap fun c => if c.type = .text ∧ c.key = key then c.text.toList else []

/-- The pieces of a message that were received. -/
def Notification.piece (key : ItemKey) : Notification → List Char
  | .textDelta key' delta => if key' = key then delta.toList else []
  | _ => []

/-- The item id under which a notification streams something. -/
def Notification.streams : Notification → Option String
  | .textDelta key _ | .thinkingDelta key _ => some key.item
  | _ => none

def Notification.completes (key : ItemKey) : Notification → Bool
  | .messageCompleted key' _ => key' = key
  | _ => false

variable {st : StreamState} {key : ItemKey} {n : Notification} {ns : List Notification}

/-- Only further pieces of the message are shown. -/
def StreamState.Closed (st : StreamState) (key : ItemKey) : Prop :=
  key.item ∈ st.streamed ∨ (key.item ≠ "" ∧ key ∈ st.replies)

instance : Decidable (st.Closed key) := inferInstanceAs (Decidable (_ ∨ _))

open StreamState Notification

theorem streams_of_piece (h : n.piece key ≠ []) : n.streams = some key.item := by
  cases n with
  | textDelta key' delta =>
    by_cases hkey : key' = key
    · rw [streams, hkey]
    · exact absurd (if_neg hkey) h
  | _ => exact absurd rfl h

/-- **What a notification shows of a message**, and which ones close it. -/
theorem shown_step (st : StreamState) {text : String}
    (hn : ∀ t, n = .messageCompleted key t → t = text) :
    shown key (st.mapNotification n).2 =
        (if n.completes key ∧ ¬ st.Closed key then text.toList else []) ++ n.piece key ∧
      ((st.mapNotification n).1.Closed key ↔
        st.Closed key ∨ n.streams = some key.item ∨ (n.completes key ∧ key.item ≠ "")) := by
  cases n with
  | textDelta key' | thinkingDelta key' =>
    refine ⟨by simp [mapNotification, deltaChunk, shown, piece, completes], ?_⟩
    simp only [mapNotification, deltaChunk, completes, streams, Closed, mem_cons, Option.some.injEq,
      @eq_comm _ key'.item]
    tauto
  | messageCompleted key' text' =>
    by_cases hkey : key' = key
    · obtain rfl := hn text' (by rw [hkey])
      subst hkey
      simp only [mapNotification, Closed]
      split_ifs <;> simp_all [shown, closeOrEmitText, piece, completes, streams]
    · have hno : completes key (.messageCompleted key' text') = false := by simp [completes, hkey]
      simp only [mapNotification, hno, Bool.false_eq_true, false_and, if_false]
      split_ifs <;> simp [shown, closeOrEmitText, piece, streams, Closed, hkey, Ne.symm hkey]
  | reasoningCompleted | other =>
    simp [mapNotification, closeOrEmitText, shown, piece, completes, streams]

/-- The completions of a message that come before anything is streamed under its item id. -/
def unstreamed (key : ItemKey) (ns : List Notification) : Nat :=
  (ns.takeWhile fun n => n.streams ≠ some key.item).countP (completes key)

/-- **What a stream shows of a message**: its text for each of these completions, but only once if
    the item has an id, and the pieces. -/
theorem shown_run (st : StreamState) {text : String}
    (hsame : ∀ t, .messageCompleted key t ∈ ns → t = text) :
    shown key (mapper.run st ns).2 =
      (replicate (if st.Closed key then 0 else if key.item = "" then unstreamed key ns
        else min (unstreamed key ns) 1) text.toList).flatten ++ ns.flatMap (piece key) := by
  induction ns generalizing st with
  | nil => simp [unstreamed, shown]
  | cons n ns ih =>
    obtain ⟨hshown, hclosed⟩ := shown_step st fun t ht => hsame t (ht ▸ mem_cons_self)
    have hrest := ih (st.mapNotification n).1 fun t ht => hsame t (mem_cons_of_mem _ ht)
    rw [Transducer.run_cons, shown, flatMap_append, flatMap_cons]
    refine (congrArg₂ _ hshown hrest).trans ?_
    by_cases hst : st.Closed key
    · simp [hst, hclosed]
    by_cases hstreams : n.streams = some key.item
    · have hno : n.completes key = false := by
        cases n with
        | messageCompleted => cases hstreams
        | _ => rfl
      simp [hclosed, hstreams, unstreamed, hno]
    rw [not_ne_iff.mp fun hpiece => hstreams (streams_of_piece hpiece)]
    by_cases hcompletes : n.completes key = true
    · by_cases hitem : key.item = "" <;>
        simp_all [unstreamed, replicate_succ]
    · simp [hst, hclosed, hstreams, hcompletes, unstreamed]

/-- **A message is shown whole and once** exactly when its pieces are its text, if something is
    streamed under its item id before it is completed, and otherwise when no piece comes at all and
    it is not completed again without an id. -/
theorem message_shown_whole_iff {text : String}
    (hsame : ∀ t, .messageCompleted key t ∈ ns → t = text) :
    shown key (mapper.output ns) = text.toList ↔
      if unstreamed key ns = 0 then ns.flatMap (piece key) = text.toList
      else ns.flatMap (piece key) = [] ∧ (key.item ≠ "" ∨ unstreamed key ns = 1 ∨ text = "") := by
  have hopen : ¬ mapper.init.Closed key := by simp [mapper, Closed]
  rw [Transducer.output, shown_run _ hsame, if_neg hopen]
  cases hc : unstreamed key ns with
  | zero => simp
  | succ m =>
    by_cases hitem : key.item = ""
    · cases m with
      | zero => simp [hitem]
      | succ m =>
        simp [hitem, replicate_succ]
        tauto
    · simp [hitem]

/-- Two turns of a thread that use one item id. -/
def firstTurn : ItemKey := ⟨"thread", "turn1", "item"⟩
def secondTurn : ItemKey := ⟨"thread", "turn2", "item"⟩

theorem message_shown_whole_iff_streamed : shown firstTurn (mapper.output
    [.textDelta firstTurn "he", .textDelta firstTurn "y", .messageCompleted firstTurn "hey"]) =
      "hey".toList :=
  (message_shown_whole_iff (by simp)).mpr (by decide)

/-- The second turn's pieces were lost, and its text is not shown. -/
theorem reused_item_hides_text : shown secondTurn (mapper.output
    [.textDelta firstTurn "hey", .messageCompleted firstTurn "hey",
      .messageCompleted secondTurn "yes"]) = [] := by
  decide

end AgentMultiplexer.CodexApp
