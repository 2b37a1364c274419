import Crossgram.Lib.Cursors
import Crossgram.Lib.Runs
import Mathlib.Data.List.Basic
/-!
# EventStream — the two loops of a QQNT subscription (packages/platform-crossgram/src/index.ts)

`subscribeLoop` handles the frames of the bridge's event stream in order and stores the id of each; `subscribeDialogsLoop`
polls the dialogs and hands over what the stream has not.  Both dispatch through one set of keys in flight.  Each await is a
step.  A frame's id is its position in the bridge's log; a connection replays the log behind the stored position.  `delivered`
and `ownOrigin` record which handler calls succeeded and what was skipped as own; no code reads them.
-/
namespace Crossgram
namespace EventStream

open List

structure WireMessage where
  id : String
  originRequestId : Option String
  timestamp : Int
  /-- `serviceActionText(message.serviceAction)` -/
  serviceActionText : Option String
deriving DecidableEq

inductive WireEvent
  | nativeAvsdk
  /-- Whether `isWireCallSignalEvent` holds of it. -/
  | callSignal (valid : Bool)
  | request
  | message (conversation : String) (message : WireMessage)
  | messageEdit (conversation : String) (message : WireMessage)
  /-- Any other event of a conversation. -/
  | other (conversation : String)
deriving DecidableEq

structure Frame where
  event : WireEvent
  identified : Bool
deriving DecidableEq

structure Dialog where
  conversation : String
  lastMessage : Option WireMessage

abbrev Key := String × String

/-- What a platform is built with, and the ids that its mapping of conversations and messages gives a message. -/
structure QQNTPlatform where
  grayTipFilters : List String
  localeCompare : String → String → Int
  keyOf : String → WireMessage → Key

def INVALID_ZERO_PEER_CONVERSATION_ID : String := "0"

def isFilteredConversationId (conversation : String) : Bool := conversation == INVALID_ZERO_PEER_CONVERSATION_ID

/-- `text.includes(filter)` -/
def includes (text filter : String) : Bool := text.toList.tails.any (fun rest => filter.toList.isPrefixOf rest)

namespace QQNTPlatform

def isFilteredGrayTip (p : QQNTPlatform) (message : WireMessage) : Bool :=
  match message.serviceActionText with
  | none      => false
  | some text => text != "" && p.grayTipFilters.any (fun filter => filter != "" && includes text filter)

/-- `/^\d+$/` -/
def isNumeric (id : String) : Bool := !id.toList.isEmpty && id.toList.all (fun c => c.isDigit)

def compareMessagesChronologically (p : QQNTPlatform) (left right : WireMessage) : Int :=
  if left.timestamp ≠ right.timestamp then left.timestamp - right.timestamp
  else if isNumeric left.id && isNumeric right.id then
    if left.id.toNat! < right.id.toNat! then -1 else if left.id.toNat! > right.id.toNat! then 1 else 0
  else p.localeCompare left.id right.id

/-- What is recovered of a conversation, given the history behind `previousId` when the request for it succeeds. -/
def recoverDialogMessages (p : QQNTPlatform) (previousId : Option String) (latest : WireMessage)
    (history : Option (List WireMessage)) : List WireMessage :=
  match previousId, history with
  | some previousId, some history =>
    let messages := history.filter (fun message => message.id != previousId && !p.isFilteredGrayTip message)
    let messages := if messages.any (fun message => message.id == latest.id) then messages else messages ++ [latest]
    messages.mergeSort (fun left right => decide (p.compareMessagesChronologically left right ≤ 0))
  | _, _ => [latest]

end QQNTPlatform

/-- Where `subscribeLoop` stands; the number is the position of its frame. -/
inductive StreamStage
  | stopped
  | loading
  | waiting
  | receiving (i : Nat)
  /-- `dispatchMessage` awaits `prepareInitialMessage`. -/
  | preparing (i : Nat) (conversation : String) (message : WireMessage)
  /-- `dispatchMessage` awaits the handler. -/
  | dispatching (i : Nat) (conversation : String) (message : WireMessage)
  | handling (i : Nat)
  | storing (i : Nat)
  | stored (i : Nat)
deriving DecidableEq

/-- Where `subscribeDialogsLoop` stands. -/
inductive DialogsStage
  | stopped
  | waiting (hasBaseline : Bool)
  | page (dialogs : List Dialog)
  /-- It awaits `recoverDialogMessages`. -/
  | recovering (conversation : String) (previousId : Option String) (latest : WireMessage) (dialogs : List Dialog)
  | recovered (conversation : String) (messages : List WireMessage) (dialogs : List Dialog)
  | preparing (conversation : String) (message : WireMessage) (messages : List WireMessage) (dialogs : List Dialog)
  | dispatching (conversation : String) (message : WireMessage) (messages : List WireMessage) (dialogs : List Dialog)

structure Subscription where
  log : List Frame
  /-- The stored `lastEventId`. -/
  checkpoint : Option Nat
  /-- The `lastEventId` of the loop. -/
  lastEventId : Option Nat
  stream : StreamStage
  dialogs : DialogsStage
  knownLastMessageIds : String → Option (Option String)
  inFlightMessageKeys : List Key
  /-- The origins that `originSessions` has for this session. -/
  originSessions : List String
  delivered : List Key
  /-- The wire messages skipped as own, with the position of their frame or as polled. -/
  ownOrigin : List (Option Nat × WireMessage)

inductive StreamAction
  | emit (frame : Frame)
  | arm (originRequestId : String)
  | expire (originRequestId : String)
  | start
  | crash
  | load
  | connect
  | receive
  | prepared
  | dispatched
  | handled
  | store
  | advance
  /-- An await of `subscribeLoop` rejects, or its connection ends. -/
  | streamFails
  /-- A page of dialogs; `more` says that the baseline has another. -/
  | fetched (page : List Dialog) (more : Bool)
  | nextDialog
  | recover (history : Option (List WireMessage))
  | nextMessage
  | polledPrepared
  | polledDispatched
  /-- An await of `subscribeDialogsLoop` rejects. -/
  | pollFails

namespace Subscription

def empty : Subscription :=
  { log := [], checkpoint := none, lastEventId := none, stream := .stopped, dialogs := .stopped
    knownLastMessageIds := fun _ => none, inFlightMessageKeys := [], originSessions := [], delivered := []
    ownOrigin := [] }

def setKnown (s : Subscription) (conversation : String) (id : Option String) : Subscription :=
  { s with knownLastMessageIds := Function.update s.knownLastMessageIds conversation (some id) }

def isOwnOrigin (s : Subscription) (message : WireMessage) : Bool :=
  match message.originRequestId with
  | none        => false
  | some origin => origin != "" && s.originSessions.contains origin

def release (s : Subscription) (key : Key) : Subscription :=
  { s with inFlightMessageKeys := s.inFlightMessageKeys.filter (fun k => k != key) }

/-- The handler of the stream returned: `if (frame.id) await options.onEventId?.(frame.id)`. -/
def acknowledge (s : Subscription) (i : Nat) (identified : Bool) : Subscription :=
  { s with stream := if identified then .storing i else .receiving (i + 1) }

/-- `dispatchMessage` as far as its first await. -/
def dispatchMessage (p : QQNTPlatform) (s : Subscription) (i : Nat) (identified : Bool) (conversation : String)
    (message : WireMessage) : Subscription :=
  if s.inFlightMessageKeys.contains (p.keyOf conversation message) then s.acknowledge i identified
  else { s with
    inFlightMessageKeys := p.keyOf conversation message :: s.inFlightMessageKeys
    stream := .preparing i conversation message }

def handle (p : QQNTPlatform) (s : Subscription) (i : Nat) (frame : Frame) : Subscription :=
  match frame.event with
  | .nativeAvsdk      => s.acknowledge i frame.identified
  | .callSignal valid => if valid then { s with stream := .handling i } else s.acknowledge i frame.identified
  | .request          => { s with stream := .handling i }
  | .message conversation message =>
    if isFilteredConversationId conversation then (s.setKnown conversation message.id).acknowledge i frame.identified
    else if p.isFilteredGrayTip message then (s.setKnown conversation message.id).acknowledge i frame.identified
    else if s.isOwnOrigin message then
      { s.setKnown conversation message.id with
        ownOrigin := (some i, message) :: s.ownOrigin }.acknowledge i frame.identified
    else s.dispatchMessage p i frame.identified conversation message
  | .messageEdit conversation message =>
    if isFilteredConversationId conversation then s.acknowledge i frame.identified
    else if s.isOwnOrigin message then
      { s with ownOrigin := (some i, message) :: s.ownOrigin }.acknowledge i frame.identified
    else { s with stream := .handling i }
  | .other conversation =>
    if isFilteredConversationId conversation then s.acknowledge i frame.identified else { s with stream := .handling i }

def die (s : Subscription) : Subscription :=
  { empty with log := s.log, checkpoint := s.checkpoint, delivered := s.delivered, ownOrigin := s.ownOrigin }

/-- What `dispatchMessage` of the stream holds in flight. -/
def releaseStream (p : QQNTPlatform) (s : Subscription) : Subscription :=
  match s.stream with
  | .preparing _ conversation message   => s.release (p.keyOf conversation message)
  | .dispatching _ conversation message => s.release (p.keyOf conversation message)
  | _ => s

/-- What `dispatchMessage` of the polling holds in flight. -/
def releaseDialogs (s : Subscription) : Subscription :=
  match s.dialogs with
  | .preparing conversation message _ _   => s.release (conversation, message.id)
  | .dispatching conversation message _ _ => s.release (conversation, message.id)
  | _ => s

def step (p : QQNTPlatform) (s : Subscription) : StreamAction → Option Subscription
  | .emit frame => some { s with log := s.log ++ [frame] }
  | .arm origin => if s.stream = .stopped then none else some { s with originSessions := origin :: s.originSessions }
  | .expire origin => some { s with originSessions := s.originSessions.filter (fun o => o != origin) }
  | .start =>
    if s.stream = .stopped then some { s with stream := .loading, dialogs := .waiting false } else none
  | .crash => if s.stream = .stopped then none else some s.die
  | .load =>
    if s.stream = .loading then some { s with lastEventId := s.checkpoint, stream := .waiting } else none
  | .connect =>
    if s.stream = .waiting then some { s with stream := .receiving (Cursors.next s.lastEventId) } else none
  | .receive =>
    match s.stream with
    | .receiving i => (s.log[i]?).map (fun frame => s.handle p i frame)
    | _ => none
  | .prepared =>
    match s.stream with
    | .preparing i conversation message => some { s with stream := .dispatching i conversation message }
    | _ => none
  | .dispatched =>
    match s.stream with
    | .dispatching i conversation message => (s.log[i]?).map (fun frame =>
        ({ s.release (p.keyOf conversation message) with
          delivered := p.keyOf conversation message :: s.delivered }.setKnown (p.keyOf conversation message).1
            (p.keyOf conversation message).2).acknowledge i frame.identified)
    | _ => none
  | .handled =>
    match s.stream with
    | .handling i => (s.log[i]?).map (fun frame => s.acknowledge i frame.identified)
    | _ => none
  | .store =>
    match s.stream with
    | .storing i => some { s with checkpoint := some i, stream := .stored i }
    | _ => none
  | .advance =>
    match s.stream with
    | .stored i => some { s with lastEventId := some i, stream := .receiving (i + 1) }
    | _ => none
  | .streamFails =>
    match s.stream with
    | .stopped | .loading | .waiting => none
    | _ => some { s.releaseStream p with stream := .waiting }
  | .fetched page more =>
    match s.dialogs with
    | .waiting true  => some { s with dialogs := .page page }
    | .waiting false => some { page.foldl (fun s dialog =>
        s.setKnown dialog.conversation (dialog.lastMessage.map (fun message => message.id))) s with
        dialogs := .waiting (!more) }
    | _ => none
  | .nextDialog =>
    match s.dialogs with
    | .page [] => some { s with dialogs := .waiting true }
    | .page (dialog :: dialogs) =>
      match dialog.lastMessage with
      | none =>
        if (s.knownLastMessageIds dialog.conversation).isSome then some { s with dialogs := .page dialogs }
        else some { s.setKnown dialog.conversation none with dialogs := .page dialogs }
      | some latest =>
        if s.knownLastMessageIds dialog.conversation = some (some latest.id) then some { s with dialogs := .page dialogs }
        else some { s with
          dialogs := .recovering dialog.conversation (s.knownLastMessageIds dialog.conversation).join latest dialogs }
    | _ => none
  | .recover history =>
    match s.dialogs with
    | .recovering conversation previousId latest dialogs => some { s with
        dialogs := .recovered conversation (p.recoverDialogMessages previousId latest history) dialogs }
    | _ => none
  | .nextMessage =>
    match s.dialogs with
    | .recovered _ [] dialogs => some { s with dialogs := .page dialogs }
    | .recovered conversation (message :: messages) dialogs =>
      if s.isOwnOrigin message then some { s.setKnown conversation message.id with
        ownOrigin := (none, message) :: s.ownOrigin
        dialogs := .recovered conversation messages dialogs }
      else if s.inFlightMessageKeys.contains (conversation, message.id) then
        some { s with dialogs := .recovered conversation messages dialogs }
      else some { s with
        inFlightMessageKeys := (conversation, message.id) :: s.inFlightMessageKeys
        dialogs := .preparing conversation message messages dialogs }
    | _ => none
  | .polledPrepared =>
    match s.dialogs with
    | .preparing conversation message messages dialogs => some { s with
        dialogs := .dispatching conversation message messages dialogs }
    | _ => none
  | .polledDispatched =>
    match s.dialogs with
    | .dispatching conversation message messages dialogs => some { (s.release (conversation, message.id)).setKnown
        conversation message.id with
        delivered := (conversation, message.id) :: s.delivered
        dialogs := .recovered conversation messages dialogs }
    | _ => none
  | .pollFails =>
    match s.dialogs with
    | .stopped | .waiting _ => none
    | _ => some { s.releaseDialogs with dialogs := .waiting true }

/-! ## The condition on a step -/

def MeetsInFlight (p : QQNTPlatform) (s : Subscription) : Prop :=
  ∃ i conversation message identified, s.stream = .receiving i ∧
    s.log[i]? = some ⟨.message conversation message, identified⟩ ∧
    isFilteredConversationId conversation = false ∧ p.isFilteredGrayTip message = false ∧
    s.isOwnOrigin message = false ∧ p.keyOf conversation message ∈ s.inFlightMessageKeys

/-- The stream does not skip a message that the polling has in flight. -/
def NoSkip (p : QQNTPlatform) (s : Subscription) : StreamAction → Prop
  | .receive => ¬ s.MeetsInFlight p
  | _ => True

/-! ## Every run -/

/-- The frame at a position needs no handler call any more. -/
def Passed (p : QQNTPlatform) (s : Subscription) (i : Nat) : Prop :=
  ∃ frame, s.log[i]? = some frame ∧ ∀ conversation message, frame.event = .message conversation message →
    isFilteredConversationId conversation = true ∨ p.isFilteredGrayTip message = true ∨
      (some i, message) ∈ s.ownOrigin ∨ p.keyOf conversation message ∈ s.delivered

def StageInv (p : QQNTPlatform) (s : Subscription) : StreamStage → Prop
  | .stopped | .loading | .waiting => True
  | .receiving i => Cursors.Below (s.Passed p) i
  | .preparing i conversation message | .dispatching i conversation message =>
    Cursors.Below (s.Passed p) i ∧ ∃ identified, s.log[i]? = some ⟨.message conversation message, identified⟩
  | .handling i => Cursors.Below (s.Passed p) (i + 1)
  | .storing i | .stored i => Cursors.Below (s.Passed p) (i + 1)

structure Inv (p : QQNTPlatform) (s : Subscription) : Prop where
  checkpoint : Cursors.Upto (s.Passed p) s.checkpoint
  lastEventId : Cursors.Upto (s.Passed p) s.lastEventId
  stream : s.StageInv p s.stream

structure Grows (s s' : Subscription) : Prop where
  log : ∀ (i : Nat) (frame : Frame), s.log[i]? = some frame → s'.log[i]? = some frame
  delivered : s.delivered ⊆ s'.delivered
  ownOrigin : s.ownOrigin ⊆ s'.ownOrigin

variable {p : QQNTPlatform} {s s' : Subscription}

theorem Grows.refl (s : Subscription) : Grows s s :=
  ⟨fun _ _ h => h, List.Subset.refl _, List.Subset.refl _⟩

theorem Grows.passed (h : Grows s s') (i : Nat) (hp : s.Passed p i) : s'.Passed p i := by
  obtain ⟨frame, hframe, hmessage⟩ := hp
  refine ⟨frame, h.log i frame hframe, fun conversation message hevent => ?_⟩
  rcases hmessage conversation message hevent with hzero | hgray | hown | hdelivered
  · exact .inl hzero
  · exact .inr (.inl hgray)
  · exact .inr (.inr (.inl (h.ownOrigin hown)))
  · exact .inr (.inr (.inr (h.delivered hdelivered)))

theorem Grows.stage (h : Grows s s') {stage : StreamStage} (hs : s.StageInv p stage) : s'.StageInv p stage := by
  cases stage with
  | stopped => trivial
  | loading => trivial
  | waiting => trivial
  | receiving i => exact Cursors.Below.mono h.passed hs
  | preparing i conversation message =>
    obtain ⟨hbelow, identified, hframe⟩ := hs
    exact ⟨Cursors.Below.mono h.passed hbelow, identified, h.log i _ hframe⟩
  | dispatching i conversation message =>
    obtain ⟨hbelow, identified, hframe⟩ := hs
    exact ⟨Cursors.Below.mono h.passed hbelow, identified, h.log i _ hframe⟩
  | handling i => exact Cursors.Below.mono h.passed hs
  | storing i => exact Cursors.Below.mono h.passed hs
  | stored i => exact Cursors.Below.mono h.passed hs

theorem Inv.grow (h : Inv p s) (hg : Grows s s') (hcheckpoint : s'.checkpoint = s.checkpoint)
    (hlast : s'.lastEventId = s.lastEventId) (hstream : s'.StageInv p s'.stream) : Inv p s' where
  checkpoint := hcheckpoint ▸ h.checkpoint.mono hg.passed
  lastEventId := hlast ▸ h.lastEventId.mono hg.passed
  stream := hstream

theorem Inv.poll (h : Inv p s) (hg : Grows s s') (hcheckpoint : s'.checkpoint = s.checkpoint)
    (hlast : s'.lastEventId = s.lastEventId) (hstream : s'.stream = s.stream) : Inv p s' :=
  h.grow hg hcheckpoint hlast (hstream ▸ hg.stage h.stream)

/-- **The handler of a frame returned**, and the frame is passed. -/
theorem Inv.acknowledge {i : Nat} (h : Inv p s) (hbelow : Cursors.Below (s.Passed p) i) (hi : s.Passed p i)
    (identified : Bool) : Inv p (s.acknowledge i identified) := by
  refine h.grow ⟨fun _ _ hf => hf, List.Subset.refl _, List.Subset.refl _⟩ rfl rfl ?_
  unfold Subscription.acknowledge
  cases identified with
  | true => exact hbelow.succ hi
  | false => exact hbelow.succ hi

theorem passed_of_event {i : Nat} {frame : Frame} (hframe : s.log[i]? = some frame)
    (hevent : ∀ conversation message, frame.event ≠ .message conversation message) : s.Passed p i :=
  ⟨frame, hframe, fun conversation message h => absurd h (hevent conversation message)⟩

/-- **What the stream does with a frame**: it leaves the frame passed, or dispatches it. -/
theorem Inv.handle {i : Nat} {frame : Frame} (h : Inv p s) (hstream : s.stream = .receiving i)
    (hframe : s.log[i]? = some frame) (hskip : ¬ s.MeetsInFlight p) : Inv p (s.handle p i frame) := by
  have hbelow : Cursors.Below (s.Passed p) i := by
    have hstage := h.stream
    rw [hstream] at hstage
    exact hstage
  have hmark : ∀ conversation id, Grows s (s.setKnown conversation id) := fun _ _ =>
    ⟨fun _ _ hf => hf, List.Subset.refl _, List.Subset.refl _⟩
  have hhandle : (∀ conversation message, frame.event ≠ .message conversation message) →
      Inv p { s with stream := .handling i } := fun hevent =>
    h.grow ⟨fun _ _ hf => hf, List.Subset.refl _, List.Subset.refl _⟩ rfl rfl
      (hbelow.succ (passed_of_event hframe hevent))
  have hdone : (∀ conversation message, frame.event ≠ .message conversation message) →
      Inv p (s.acknowledge i frame.identified) := fun hevent => h.acknowledge hbelow (passed_of_event hframe hevent) _
  unfold Subscription.handle
  cases hevent : frame.event with
  | nativeAvsdk => exact hdone (fun _ _ hm => by rw [hevent] at hm; cases hm)
  | callSignal valid =>
    cases valid with
    | true => exact hhandle (fun _ _ hm => by rw [hevent] at hm; cases hm)
    | false => exact hdone (fun _ _ hm => by rw [hevent] at hm; cases hm)
  | request => exact hhandle (fun _ _ hm => by rw [hevent] at hm; cases hm)
  | message conversation message =>
    dsimp only
    have hone : ∀ s', Grows s s' → s'.checkpoint = s.checkpoint → s'.lastEventId = s.lastEventId →
        s'.StageInv p s'.stream → (isFilteredConversationId conversation = true ∨ p.isFilteredGrayTip message = true ∨
          (some i, message) ∈ s'.ownOrigin) → Inv p (s'.acknowledge i frame.identified) := by
      intro s' hg hcheckpoint hlast hstage hwhy
      refine (h.grow hg hcheckpoint hlast hstage).acknowledge (hbelow.mono hg.passed)
        ⟨frame, hg.log i frame hframe, fun c m hm => ?_⟩ _
      rw [hevent] at hm
      cases hm
      rcases hwhy with hzero | hgray | hown
      · exact .inl hzero
      · exact .inr (.inl hgray)
      · exact .inr (.inr (.inl hown))
    by_cases hzero : isFilteredConversationId conversation = true
    · rw [if_pos hzero]
      exact hone _ (hmark _ _) rfl rfl ((hmark _ _).stage h.stream) (.inl hzero)
    · rw [if_neg hzero]
      by_cases hgray : p.isFilteredGrayTip message = true
      · rw [if_pos hgray]
        exact hone _ (hmark _ _) rfl rfl ((hmark _ _).stage h.stream) (.inr (.inl hgray))
      · rw [if_neg hgray]
        by_cases hown : s.isOwnOrigin message = true
        · rw [if_pos hown]
          have hg : Grows s { s.setKnown conversation message.id with
              ownOrigin := (some i, message) :: s.ownOrigin } :=
            ⟨fun _ _ hf => hf, List.Subset.refl _, subset_cons_self _ _⟩
          exact hone _ hg rfl rfl (hg.stage h.stream) (.inr (.inr mem_cons_self))
        · rw [if_neg hown]
          unfold Subscription.dispatchMessage
          have hfree : ¬ (s.inFlightMessageKeys.contains (p.keyOf conversation message) = true) := fun hmem =>
            hskip ⟨i, conversation, message, frame.identified, hstream, by rw [hframe, ← hevent],
              Bool.eq_false_iff.2 hzero, Bool.eq_false_iff.2 hgray, Bool.eq_false_iff.2 hown,
              contains_iff_mem.1 hmem⟩
          rw [if_neg hfree]
          exact h.grow ⟨fun _ _ hf => hf, List.Subset.refl _, List.Subset.refl _⟩ rfl rfl
            ⟨hbelow, frame.identified, by rw [hframe, ← hevent]⟩
  | messageEdit conversation message =>
    have hnot : ∀ c m, frame.event ≠ .message c m := fun _ _ hm => by rw [hevent] at hm; cases hm
    dsimp only
    by_cases hzero : isFilteredConversationId conversation = true
    · rw [if_pos hzero]
      exact hdone hnot
    · rw [if_neg hzero]
      by_cases hown : s.isOwnOrigin message = true
      · rw [if_pos hown]
        have hg : Grows s { s with ownOrigin := (some i, message) :: s.ownOrigin } :=
          ⟨fun _ _ hf => hf, List.Subset.refl _, subset_cons_self _ _⟩
        exact (h.grow hg rfl rfl (hg.stage h.stream)).acknowledge (hbelow.mono hg.passed)
          (hg.passed i (passed_of_event hframe hnot)) _
      · rw [if_neg hown]
        exact hhandle hnot
  | other conversation =>
    have hnot : ∀ c m, frame.event ≠ .message c m := fun _ _ hm => by rw [hevent] at hm; cases hm
    dsimp only
    by_cases hzero : isFilteredConversationId conversation = true
    · rw [if_pos hzero]
      exact hdone hnot
    · rw [if_neg hzero]
      exact hhandle hnot

theorem inv_empty : Inv p empty where
  checkpoint := Cursors.upto_none
  lastEventId := Cursors.upto_none
  stream := trivial

theorem grows_foldl_setKnown : ∀ (page : List Dialog) (s : Subscription),
    let s' := page.foldl (fun s dialog =>
      s.setKnown dialog.conversation (dialog.lastMessage.map (fun message => message.id))) s
    Grows s s' ∧ s'.checkpoint = s.checkpoint ∧ s'.lastEventId = s.lastEventId ∧ s'.stream = s.stream
  | [], s => ⟨Grows.refl s, rfl, rfl, rfl⟩
  | dialog :: page, s => by
    obtain ⟨hg, hcheckpoint, hlast, hstream⟩ := grows_foldl_setKnown page
      (s.setKnown dialog.conversation (dialog.lastMessage.map (fun message => message.id)))
    exact ⟨⟨hg.log, hg.delivered, hg.ownOrigin⟩, hcheckpoint, hlast, hstream⟩

/-- **Every step keeps what holds**, when the stream does not skip a message that the polling has in flight. -/
theorem Inv.step {a : StreamAction} (h : Inv p s) (hok : s.NoSkip p a) (hs : s.step p a = some s') : Inv p s' := by
  have hsame : ∀ t : Subscription, t.log = s.log → t.delivered = s.delivered → t.ownOrigin = s.ownOrigin → Grows s t := by
    intro t hlog hdelivered hown
    exact ⟨fun _ _ hf => hlog ▸ hf, hdelivered ▸ List.Subset.refl _, hown ▸ List.Subset.refl _⟩
  unfold Subscription.step at hs
  cases a <;> dsimp only at hs
  case emit frame =>
    cases hs
    exact h.poll ⟨fun i f hf => List.getElem?_append_left (List.getElem?_eq_some_iff.1 hf).1 ▸ hf, List.Subset.refl _,
      List.Subset.refl _⟩ rfl rfl rfl
  case arm origin =>
    split at hs
    · cases hs
    · cases hs
      exact h.poll (hsame _ rfl rfl rfl) rfl rfl rfl
  case expire origin =>
    cases hs
    exact h.poll (hsame _ rfl rfl rfl) rfl rfl rfl
  case start =>
    split at hs
    · cases hs
      exact h.grow (hsame _ rfl rfl rfl) rfl rfl trivial
    · cases hs
  case crash =>
    split at hs
    · cases hs
    · cases hs
      exact ⟨h.checkpoint.mono (hsame s.die rfl rfl rfl).passed, Cursors.upto_none, trivial⟩
  case load =>
    split at hs
    · cases hs
      exact ⟨h.checkpoint.mono (Grows.passed (hsame _ rfl rfl rfl)),
        h.checkpoint.mono (Grows.passed (hsame _ rfl rfl rfl)), trivial⟩
    · cases hs
  case connect =>
    split at hs
    · cases hs
      exact h.grow (hsame _ rfl rfl rfl) rfl rfl
        ((Cursors.below_next h.lastEventId).mono (Grows.passed (hsame _ rfl rfl rfl)))
    · cases hs
  case receive =>
    split at hs
    · rename_i i hstream
      obtain ⟨frame, hframe, rfl⟩ := Option.map_eq_some_iff.1 hs
      exact h.handle hstream hframe hok
    · cases hs
  case prepared =>
    split at hs
    · rename_i i conversation message hstream
      cases hs
      have hstage := h.stream
      rw [hstream] at hstage
      exact h.grow (hsame _ rfl rfl rfl) rfl rfl (Grows.stage (hsame _ rfl rfl rfl) hstage)
    · cases hs
  case dispatched =>
    split at hs
    · rename_i i conversation message hstream
      obtain ⟨frame, hframe, rfl⟩ := Option.map_eq_some_iff.1 hs
      have hstage := h.stream
      rw [hstream] at hstage
      obtain ⟨hbelow, identified, hmessage⟩ := hstage
      have hg : Grows s ({ s.release (p.keyOf conversation message) with
          delivered := p.keyOf conversation message :: s.delivered }.setKnown (p.keyOf conversation message).1
            (p.keyOf conversation message).2) :=
        ⟨fun _ _ hf => hf, subset_cons_self _ _, List.Subset.refl _⟩
      refine (h.poll hg rfl rfl rfl).acknowledge (hbelow.mono hg.passed) ⟨_, hmessage, fun c m hm => ?_⟩ _
      cases hm
      exact .inr (.inr (.inr mem_cons_self))
    · cases hs
  case handled =>
    split at hs
    · rename_i i hstream
      obtain ⟨frame, hframe, rfl⟩ := Option.map_eq_some_iff.1 hs
      have hstage : Cursors.Below (s.Passed p) (i + 1) := by
        have hstage := h.stream
        rw [hstream] at hstage
        exact hstage
      exact h.acknowledge (fun j hj => hstage j (Nat.lt_succ_of_lt hj)) (hstage i (Nat.lt_succ_self i)) _
    · cases hs
  case store =>
    split at hs
    · rename_i i hstream
      cases hs
      have hstage := h.stream
      rw [hstream] at hstage
      have hpassed := Grows.passed (p := p) (hsame { s with checkpoint := some i, stream := .stored i } rfl rfl rfl)
      exact ⟨(Cursors.upto_some hstage).mono hpassed, h.lastEventId.mono hpassed, hstage.mono hpassed⟩
    · cases hs
  case advance =>
    split at hs
    · rename_i i hstream
      cases hs
      have hstage := h.stream
      rw [hstream] at hstage
      have hpassed := Grows.passed (p := p) (hsame { s with lastEventId := some i, stream := .receiving (i + 1) } rfl rfl rfl)
      exact ⟨h.checkpoint.mono hpassed, (Cursors.upto_some hstage).mono hpassed, hstage.mono hpassed⟩
    · cases hs
  case streamFails =>
    have hrelease : (s.releaseStream p).log = s.log ∧ (s.releaseStream p).delivered = s.delivered ∧
        (s.releaseStream p).ownOrigin = s.ownOrigin ∧ (s.releaseStream p).checkpoint = s.checkpoint ∧
        (s.releaseStream p).lastEventId = s.lastEventId := by
      unfold releaseStream
      split <;> exact ⟨rfl, rfl, rfl, rfl, rfl⟩
    obtain ⟨hlog, hdelivered, hown, hcheckpoint, hlast⟩ := hrelease
    split at hs
    · cases hs
    · cases hs
    · cases hs
    · cases hs
      exact h.grow (hsame _ hlog hdelivered hown) hcheckpoint hlast trivial
  case fetched page more =>
    split at hs
    · cases hs
      exact h.poll (hsame _ rfl rfl rfl) rfl rfl rfl
    · cases hs
      obtain ⟨hg, hcheckpoint, hlast, hstream⟩ := grows_foldl_setKnown page s
      exact h.poll ⟨hg.log, hg.delivered, hg.ownOrigin⟩ hcheckpoint hlast hstream
    · cases hs
  case nextDialog =>
    split at hs
    · cases hs
      exact h.poll (hsame _ rfl rfl rfl) rfl rfl rfl
    · split at hs
      · split at hs
        · cases hs
          exact h.poll (hsame _ rfl rfl rfl) rfl rfl rfl
        · cases hs
          exact h.poll (hsame _ rfl rfl rfl) rfl rfl rfl
      · split at hs
        · cases hs
          exact h.poll (hsame _ rfl rfl rfl) rfl rfl rfl
        · cases hs
          exact h.poll (hsame _ rfl rfl rfl) rfl rfl rfl
    · cases hs
  case recover history =>
    split at hs
    · cases hs
      exact h.poll (hsame _ rfl rfl rfl) rfl rfl rfl
    · cases hs
  case nextMessage =>
    split at hs
    · cases hs
      exact h.poll (hsame _ rfl rfl rfl) rfl rfl rfl
    · split at hs
      · cases hs
        exact h.poll ⟨fun _ _ hf => hf, List.Subset.refl _, subset_cons_self _ _⟩ rfl rfl rfl
      · split at hs
        · cases hs
          exact h.poll (hsame _ rfl rfl rfl) rfl rfl rfl
        · cases hs
          exact h.poll (hsame _ rfl rfl rfl) rfl rfl rfl
    · cases hs
  case polledPrepared =>
    split at hs
    · cases hs
      exact h.poll (hsame _ rfl rfl rfl) rfl rfl rfl
    · cases hs
  case polledDispatched =>
    split at hs
    · cases hs
      exact h.poll ⟨fun _ _ hf => hf, subset_cons_self _ _, List.Subset.refl _⟩ rfl rfl rfl
    · cases hs
  case pollFails =>
    have hrelease : s.releaseDialogs.log = s.log ∧ s.releaseDialogs.delivered = s.delivered ∧
        s.releaseDialogs.ownOrigin = s.ownOrigin ∧ s.releaseDialogs.checkpoint = s.checkpoint ∧
        s.releaseDialogs.lastEventId = s.lastEventId ∧ s.releaseDialogs.stream = s.stream := by
      unfold releaseDialogs
      split <;> exact ⟨rfl, rfl, rfl, rfl, rfl, rfl⟩
    obtain ⟨hlog, hdelivered, hown, hcheckpoint, hlast, hstream⟩ := hrelease
    split at hs
    · cases hs
    · cases hs
    · cases hs
      exact h.poll (hsame _ hlog hdelivered hown) hcheckpoint hlast hstream

/-- **The stored id never passes a message that was not handed over**, in every run in which the stream skips no message
that the polling has in flight. -/
theorem checkpoint_covers (p : QQNTPlatform) {s : Subscription}
    (h : Runs.Reachable (Subscription.step p) (NoSkip p) empty s) {e : Nat} (he : s.checkpoint = some e) :
    ∀ i, i ≤ e → s.Passed p i := by
  have hinv : Inv p s := h.invariant inv_empty (fun _ _ _ _ hI hok hs => hI.step hok hs)
  exact hinv.checkpoint e he

def plainPlatform : QQNTPlatform :=
  { grayTipFilters := [], localeCompare := fun _ _ => 0, keyOf := fun conversation message => (conversation, message.id) }

def plainMessage (id : String) : WireMessage :=
  { id, originRequestId := none, timestamp := 0, serviceActionText := none }

/-- A test of a step that implies `NoSkip`. -/
def nothingInFlight (s : Subscription) : StreamAction → Bool
  | .receive => s.inFlightMessageKeys.isEmpty
  | _ => true

theorem noSkip_of_test (s : Subscription) (a : StreamAction) (h : s.nothingInFlight a = true) : s.NoSkip p a := by
  cases a with
  | receive =>
    rintro ⟨_, _, _, _, _, _, _, _, _, hmem⟩
    have hnil : s.inFlightMessageKeys = [] := isEmpty_iff.1 h
    rw [hnil] at hmem
    cases hmem
  | _ => trivial

def oneMessage : List StreamAction :=
  [.emit ⟨.message "c" (plainMessage "2"), true⟩, .start, .load, .connect, .receive, .prepared, .dispatched, .store]

theorem checkpoint_covers_oneMessage : ∃ s : Subscription, s.checkpoint = some 0 ∧ ∀ i, i ≤ 0 → s.Passed plainPlatform i := by
  have hstored : (Runs.run (fun s a => if s.nothingInFlight a then s.step plainPlatform a else none) empty oneMessage).map
      (fun s => s.checkpoint) = some (some 0) := by decide +kernel
  obtain ⟨s, hrun, hcheckpoint⟩ := Option.map_eq_some_iff.1 hstored
  exact ⟨s, hcheckpoint, checkpoint_covers plainPlatform (Runs.reachable_of_tested_run noSkip_of_test .init hrun) hcheckpoint⟩

def skippedMessage : List StreamAction :=
  [.emit ⟨.message "c" (plainMessage "2"), true⟩, .start, .load, .connect,
   .fetched [⟨"c", some (plainMessage "1")⟩] false, .fetched [⟨"c", some (plainMessage "2")⟩] false, .nextDialog,
   .recover (some [plainMessage "2"]), .nextMessage, .polledPrepared, .receive, .store, .crash]

/-- **The stored id passes a message that no handler call took.** -/
theorem checkpoint_passes_skipped : ¬ ∀ s, Runs.Reachable (Subscription.step plainPlatform) (fun _ _ => True) empty s →
    ∀ e, s.checkpoint = some e → ∀ i, i ≤ e → s.Passed plainPlatform i := by
  intro hall
  have hstate : (Runs.run (Subscription.step plainPlatform) empty skippedMessage).map
      (fun s => ((s.checkpoint, s.log), s.ownOrigin, s.delivered)) =
      some ((some 0, [⟨.message "c" (plainMessage "2"), true⟩]), [], []) := by decide +kernel
  obtain ⟨s, hrun, hs⟩ := Option.map_eq_some_iff.1 hstate
  obtain ⟨⟨hcheckpoint, hlog⟩, hown, hdelivered⟩ := by simpa only [Prod.mk.injEq] using hs
  obtain ⟨frame, hframe, hpassed⟩ := hall s (Runs.reachable_of_run (fun _ _ _ => trivial) .init hrun) 0 hcheckpoint 0
    (Nat.le_refl 0)
  rw [hlog] at hframe
  cases hframe
  rcases hpassed _ _ rfl with hzero | hgray | hmem | hmem
  · exact absurd hzero (by decide)
  · exact absurd hgray (by decide)
  · rw [hown] at hmem
    cases hmem
  · rw [hdelivered] at hmem
    cases hmem

end Subscription

end EventStream
end Crossgram
