import Crossgram.EventStream
import Mathlib.Data.List.Range
/-!
# OwnMessages — the echoes of a session's own sends (packages/platform-crossgram/src/index.ts)

`sendMessage` and `forwardMessages` arm `originSessions` before they ask the bridge, and a timer disarms it after they are
over; while it is armed the two loops skip the messages that carry the origin.  `accepted` records what the bridge has
accepted of each origin; the wire carries an origin with no other message.
-/
namespace Crossgram
namespace EventStream

open List

/-! ## The plan of a send -/

structure SendPlan where
  media : List Nat
  includeText : Bool := false
  includeReply : Bool := false
deriving DecidableEq

def flushRichMedia (plans : List SendPlan) (richMedia : List Nat) : List SendPlan :=
  if richMedia.isEmpty then plans else plans ++ [{ media := richMedia }]

def planItem (state : List SendPlan × List Nat) (item : Bool × Nat) : List SendPlan × List Nat :=
  if item.1 then (flushRichMedia state.1 state.2 ++ [{ media := [item.2] }], []) else (state.1, state.2 ++ [item.2])

def markContextual (files : List Bool) (hasText : Bool) : List SendPlan → List SendPlan
  | []            => []
  | plan :: plans =>
    if plan.media.any (fun index => !files.getD index false) then
      { plan with includeText := hasText, includeReply := true } :: plans
    else plan :: markContextual files hasText plans

def textPlans (files : List Bool) (hasText : Bool) : List SendPlan :=
  if hasText && files.headD false then [{ media := [], includeText := true, includeReply := true }] else []

/-- The plans of a split send; `files` says which media are ordinary files. -/
def sendPlans (files : List Bool) (hasText : Bool) : List SendPlan :=
  let (plans, richMedia) := files.zipIdx.foldl planItem (textPlans files hasText, [])
  let plans := flushRichMedia plans richMedia
  if !hasText || !files.headD false then markContextual files hasText plans else plans

/-- `mediaSourceIds` after the sent plans. -/
def mediaSourceIds (count : Nat) (sent : List (SendPlan × String)) : List (Option String) :=
  sent.foldl (fun ids one => one.1.media.foldl (fun ids index => ids.set index (some one.2)) ids)
    (List.replicate count none)

/-- `orderedSourceIds`, none when an id is missing. -/
def allPresent : List (Option String) → Option (List String)
  | []             => some []
  | none :: _      => none
  | some id :: ids => (allPresent ids).map (fun ids => id :: ids)

def logicalMessage (count : Nat) (sent : List (SendPlan × String)) : Option (List String) :=
  match sent with
  | []                => none
  | (_, primary) :: _ => (allPresent (mediaSourceIds count sent)).map (fun ids => primary :: ids)

/-! ## The calls -/

inductive CallStage
  | single (accepted : Option String)
  | splitting (sent : List (SendPlan × String)) (plans : List SendPlan) (accepted : Option String)
  | forwarding (accepted : List String)
  | preparing (ids : List String)
  | succeeded (ids : List String)
  | failed
deriving DecidableEq

structure OwnCall where
  files : List Bool
  hasText : Bool
  stage : CallStage

namespace OwnCall

def settled (call : OwnCall) : Bool :=
  match call.stage with
  | .succeeded _ => true
  | .failed      => true
  | _            => false

/-- `sendMessage` when its request begins: split when a file is among the media. -/
def send (files : List Bool) (hasText : Bool) : OwnCall where
  files := files
  hasText := hasText
  stage := if files.any id then .splitting [] (sendPlans files hasText) none else .single none

def forward : OwnCall where
  files := []
  hasText := false
  stage := .forwarding []

def accept (call : OwnCall) (id : String) : Option OwnCall :=
  match call.stage with
  | .single none               => some { call with stage := .single (some id) }
  | .splitting sent plans none => some { call with stage := .splitting sent plans (some id) }
  | .forwarding ids            => some { call with stage := .forwarding (ids ++ [id]) }
  -- a request whose answer did not arrive
  | .failed                    => some call
  | _                          => none

def planSent (call : OwnCall) (sent : List (SendPlan × String)) (plan : SendPlan) (plans : List SendPlan) (id : String)
    (outputMedia : Nat) : OwnCall :=
  if outputMedia ≠ plan.media.length then { call with stage := .failed }
  else match plans with
    | _ :: _ => { call with stage := .splitting (sent ++ [(plan, id)]) plans none }
    | []     =>
      match logicalMessage call.files.length (sent ++ [(plan, id)]) with
      | none     => { call with stage := .failed }
      | some ids => { call with stage := .preparing ids }

/-- The bridge's answer arrives, with so many media. -/
def reply (call : OwnCall) (outputMedia : Nat) : Option OwnCall :=
  match call.stage with
  | .single (some id)                       => some { call with stage := .preparing [id] }
  | .splitting sent (plan :: plans) (some id) => some (call.planSent sent plan plans id outputMedia)
  | .forwarding ids                         => some { call with stage := .preparing ids }
  | _                                       => none

def prepared (call : OwnCall) : Option OwnCall :=
  match call.stage with
  | .preparing ids => some { call with stage := .succeeded ids }
  | _              => none

def held (call : OwnCall) : List String :=
  match call.stage with
  | .single accepted           => accepted.toList
  | .splitting sent _ accepted => sent.map (fun one => one.2) ++ accepted.toList
  | .forwarding ids            => ids
  | .preparing ids             => ids
  | .succeeded ids             => ids
  | .failed                    => []

end OwnCall

structure Session where
  loops : Subscription
  calls : String → Option OwnCall
  accepted : List (String × String)

def Frame.wires (frame : Frame) : List WireMessage :=
  match frame.event with
  | .message _ message     => [message]
  | .messageEdit _ message => [message]
  | _                      => []

def Dialog.wires (dialog : Dialog) : List WireMessage := dialog.lastMessage.toList

def DialogsStage.wires : DialogsStage → List WireMessage
  | .stopped | .waiting _                     => []
  | .page dialogs                             => dialogs.flatMap Dialog.wires
  | .recovering _ _ latest dialogs            => latest :: dialogs.flatMap Dialog.wires
  | .recovered _ messages dialogs             => messages ++ dialogs.flatMap Dialog.wires
  | .preparing _ message messages dialogs     => message :: messages ++ dialogs.flatMap Dialog.wires
  | .dispatching _ message messages dialogs   => message :: messages ++ dialogs.flatMap Dialog.wires

def Subscription.wires (s : Subscription) : List WireMessage := s.log.flatMap Frame.wires ++ s.dialogs.wires

def StreamAction.wires : StreamAction → List WireMessage
  | .emit frame             => frame.wires
  | .fetched page _         => page.flatMap Dialog.wires
  | .recover (some history) => history
  | _                       => []

inductive SessionAction
  | loop (action : StreamAction)
  | send (originRequestId : String) (files : List Bool) (hasText : Bool)
  | forward (originRequestId : String)
  /-- The bridge accepts a message of an origin, of this session's or of another client's. -/
  | accept (originRequestId id : String)
  | reply (originRequestId : String) (outputMedia : Nat)
  | prepared (originRequestId : String)
  | fail (originRequestId : String)
  | expire (originRequestId : String)
  | crash

namespace Session

def empty : Session := { loops := .empty, calls := fun _ => none, accepted := [] }

def setCall (s : Session) (origin : String) (call : OwnCall) : Session :=
  { s with calls := Function.update s.calls origin (some call) }

def isAccepted (s : Session) (message : WireMessage) : Bool :=
  match message.originRequestId with
  | none        => true
  | some origin => s.accepted.contains (origin, message.id)

/-- A call begins with an origin of its own (`randomUUID`). -/
def begin (p : QQNTPlatform) (s : Session) (origin : String) (call : OwnCall) : Option Session :=
  if (s.calls origin).isSome || s.accepted.any (fun one => one.1 == origin) || origin == "" then none
  else (s.loops.step p (.arm origin)).map (fun loops => { s.setCall origin call with loops })

def advance (s : Session) (origin : String) (f : OwnCall → Option OwnCall) : Option Session :=
  (s.calls origin).bind (fun call => (f call).map (fun call => s.setCall origin call))

def abandon (calls : String → Option OwnCall) (origin : String) : Option OwnCall :=
  (calls origin).map (fun call => if call.settled then call else { call with stage := .failed })

def step (p : QQNTPlatform) (s : Session) : SessionAction → Option Session
  | .loop (.arm _) | .loop (.expire _) | .loop .crash => none
  | .loop a =>
    if a.wires.all s.isAccepted then (s.loops.step p a).map (fun loops => { s with loops }) else none
  | .send origin files hasText => s.begin p origin (.send files hasText)
  | .forward origin => s.begin p origin .forward
  | .accept origin id =>
    match s.calls origin with
    | none      => some { s with accepted := (origin, id) :: s.accepted }
    | some call => (call.accept id).map (fun call =>
        { s.setCall origin call with accepted := (origin, id) :: s.accepted })
  | .reply origin outputMedia => s.advance origin (fun call => call.reply outputMedia)
  | .prepared origin => s.advance origin (fun call => call.prepared)
  | .fail origin => s.advance origin (fun call =>
      if call.settled then none else some { call with stage := .failed })
  | .expire origin => (s.calls origin).bind (fun call =>
      if call.settled then (s.loops.step p (.expire origin)).map (fun loops => { s with loops }) else none)
  | .crash => (s.loops.step p .crash).map (fun loops => { s with loops, calls := abandon s.calls })

/-! ## The condition on a step -/

def Taken (s : Session) (origin : String) : Prop := ∃ id, (origin, id) ∈ s.accepted

/-- No call fails once the bridge has accepted a message of it, and the bridge accepts nothing for a call that failed. -/
def NoLoss (s : Session) : SessionAction → Prop
  | .fail origin     => ¬ s.Taken origin
  | .accept origin _ => ∀ call, s.calls origin = some call → call.stage ≠ .failed
  | .reply origin outputMedia => ∀ call sent plan plans accepted, s.calls origin = some call →
      call.stage = .splitting sent (plan :: plans) accepted → outputMedia = plan.media.length
  | .crash => ∀ origin call, s.calls origin = some call → call.settled = false → ¬ s.Taken origin
  | _ => True

/-- **No own message is hidden**: a message that a loop skipped as own is of a call that runs, or that succeeded with the
message in its result. -/
def NothingHidden (s : Session) : Prop :=
  ∀ position message origin, (position, message) ∈ s.loops.ownOrigin → message.originRequestId = some origin →
    ∃ call, s.calls origin = some call ∧
      (call.settled = false ∨ ∃ ids, call.stage = .succeeded ids ∧ message.id ∈ ids)

end Session

/-! ## Every message of a split send is in its logical message -/

def mediaOf (plans : List SendPlan) : List (List Nat) := plans.map (fun plan => plan.media)

theorem mediaOf_append (plans plans' : List SendPlan) : mediaOf (plans ++ plans') = mediaOf plans ++ mediaOf plans' :=
  map_append

theorem mediaOf_markContextual (files : List Bool) (hasText : Bool) :
    ∀ plans, mediaOf (markContextual files hasText plans) = mediaOf plans
  | []            => rfl
  | plan :: plans => by
    unfold markContextual
    split
    · rfl
    · exact congrArg (plan.media :: ·) (mediaOf_markContextual files hasText plans)

theorem mediaOf_flushRichMedia (plans : List SendPlan) (richMedia : List Nat) :
    (mediaOf (flushRichMedia plans richMedia)).flatten = (mediaOf plans).flatten ++ richMedia := by
  unfold flushRichMedia
  split
  · rename_i hnil
    rw [isEmpty_iff.1 hnil, append_nil]
  · rw [mediaOf_append, flatten_append]
    exact congrArg ((mediaOf plans).flatten ++ ·) (append_nil richMedia)

def OthersHaveMedia (plans : List SendPlan) : Prop := ∀ media ∈ (mediaOf plans).tail, media ≠ []

theorem OthersHaveMedia.concat {plans : List SendPlan} (h : OthersHaveMedia plans) {plan : SendPlan}
    (hplan : plan.media ≠ []) : OthersHaveMedia (plans ++ [plan]) := by
  intro media hmem
  rw [mediaOf_append] at hmem
  cases hp : mediaOf plans with
  | nil =>
    rw [hp] at hmem
    cases hmem
  | cons first rest =>
    rw [hp, cons_append, tail_cons] at hmem
    rcases mem_append.1 hmem with hmem | hmem
    · exact h media (by rw [hp]; exact hmem)
    · rw [mem_singleton.1 hmem]
      exact hplan

theorem OthersHaveMedia.flushRichMedia {plans : List SendPlan} (h : OthersHaveMedia plans) (richMedia : List Nat) :
    OthersHaveMedia (flushRichMedia plans richMedia) := by
  unfold EventStream.flushRichMedia
  split
  · exact h
  · rename_i hne
    exact h.concat (fun hnil => hne (isEmpty_iff.2 hnil))

theorem foldl_planItem : ∀ (items : List (Bool × Nat)) (state : List SendPlan × List Nat), OthersHaveMedia state.1 →
    (mediaOf (items.foldl planItem state).1).flatten ++ (items.foldl planItem state).2 =
      (mediaOf state.1).flatten ++ state.2 ++ items.map (fun item => item.2) ∧
    OthersHaveMedia (items.foldl planItem state).1
  | [], state, h => ⟨(append_nil _).symm, h⟩
  | item :: items, state, h => by
    rw [foldl_cons, map_cons]
    unfold planItem
    split
    · obtain ⟨hmedia, hothers⟩ := foldl_planItem items (flushRichMedia state.1 state.2 ++ [{ media := [item.2] }], [])
        ((h.flushRichMedia state.2).concat (cons_ne_nil _ _))
      refine ⟨hmedia.trans ?_, hothers⟩
      rw [mediaOf_append, flatten_append, mediaOf_flushRichMedia]
      simp [mediaOf]
    · obtain ⟨hmedia, hothers⟩ := foldl_planItem items (state.1, state.2 ++ [item.2]) h
      refine ⟨hmedia.trans ?_, hothers⟩
      simp

/-- **The plans take every media once, and only the first may take none.** -/
theorem mediaOf_sendPlans (files : List Bool) (hasText : Bool) :
    (mediaOf (sendPlans files hasText)).flatten = List.range files.length ∧ OthersHaveMedia (sendPlans files hasText) := by
  have htext : (mediaOf (textPlans files hasText)).flatten = [] ∧ OthersHaveMedia (textPlans files hasText) := by
    unfold textPlans
    split
    · exact ⟨rfl, fun _ h => by cases h⟩
    · exact ⟨rfl, fun _ h => by cases h⟩
  obtain ⟨hmedia, hothers⟩ := foldl_planItem files.zipIdx (textPlans files hasText, []) htext.2
  rw [htext.1, nil_append, nil_append, zipIdx_map_snd, ← range_eq_range'] at hmedia
  unfold sendPlans
  dsimp only
  split
  · unfold OthersHaveMedia
    rw [mediaOf_markContextual, mediaOf_flushRichMedia]
    exact ⟨hmedia, hothers.flushRichMedia _⟩
  · rw [mediaOf_flushRichMedia]
    exact ⟨hmedia, hothers.flushRichMedia _⟩

theorem foldl_set : ∀ (assigns : List (Nat × String)) (done : List (Option String)),
    assigns.map (fun one => one.1) = List.range' done.length assigns.length →
      assigns.foldl (fun ids one => ids.set one.1 (some one.2)) (done ++ List.replicate assigns.length none) =
        done ++ assigns.map (fun one => some one.2)
  | [], done, _ => by simp
  | (index, id) :: assigns, done, h => by
    rw [map_cons, length_cons, List.range'_succ] at h
    obtain ⟨hindex, hrest⟩ := List.cons.inj h
    have hlen : done.length + 1 = (done ++ [some id]).length := by simp
    rw [hlen] at hrest
    have ih := foldl_set assigns (done ++ [some id]) hrest
    rw [foldl_cons, length_cons, replicate_succ, map_cons]
    dsimp only at hindex
    rw [hindex, set_append_right _ _ (Nat.le_refl _), Nat.sub_self, set_cons_zero]
    rw [append_assoc, append_assoc] at ih
    exact ih

theorem allPresent_map : ∀ ids : List String, allPresent (ids.map some) = some ids
  | []        => rfl
  | id :: ids => by
    rw [map_cons, allPresent, allPresent_map ids]
    rfl

/-- **The logical message of a split send stands for every message that was sent.** -/
theorem logicalMessage_of_sent {files : List Bool} {hasText : Bool} {sent : List (SendPlan × String)}
    (hsent : sent.map (fun one => one.1) = sendPlans files hasText) (hne : sent ≠ []) :
    ∃ ids, logicalMessage files.length sent = some ids ∧ ∀ one ∈ sent, one.2 ∈ ids := by
  obtain ⟨hmedia, hothers⟩ := mediaOf_sendPlans files hasText
  rw [← hsent] at hmedia hothers
  have hmap : mediaOf (sent.map (fun one => one.1)) = sent.map (fun one => one.1.media) := map_map
  rw [hmap] at hmedia
  unfold OthersHaveMedia at hothers
  rw [hmap] at hothers
  obtain ⟨assigns, hassigns⟩ : ∃ assigns, assigns = sent.flatMap (fun one => one.1.media.map (fun index => (index, one.2))) :=
    ⟨_, rfl⟩
  have hindices : assigns.map (fun one => one.1) = List.range files.length := by
    rw [hassigns, map_flatMap, ← hmedia, ← flatMap_def]
    congr 1
    funext one
    rw [map_map]
    exact map_id _
  have hlength : assigns.length = files.length := by
    have h := congrArg List.length hindices
    rwa [length_map, length_range] at h
  have hids : mediaSourceIds files.length sent = assigns.map (fun one => some one.2) := by
    have hset := foldl_set assigns [] (by rw [hindices, range_eq_range', hlength]; rfl)
    rw [nil_append, nil_append, hlength, hassigns, foldl_flatMap] at hset
    rw [← hassigns] at hset
    rw [← hset]
    unfold mediaSourceIds
    congr 1
    funext ids one
    rw [foldl_map]
  cases sent with
  | nil => exact absurd rfl hne
  | cons first rest =>
    obtain ⟨plan, primary⟩ := first
    refine ⟨primary :: assigns.map (fun one => one.2), ?_, fun one hone => ?_⟩
    · unfold logicalMessage
      dsimp only
      have hsome : assigns.map (fun one => some one.2) = (assigns.map (fun one => one.2)).map some := by
        rw [map_map]
        rfl
      rw [hids, hsome, allPresent_map]
      rfl
    · rcases mem_cons.1 hone with rfl | hrest
      · exact mem_cons_self
      · refine mem_cons_of_mem _ (mem_map.2 ?_)
        have hne := hothers one.1.media (mem_map.2 ⟨one, hrest, rfl⟩)
        obtain ⟨index, hindex⟩ := exists_mem_of_ne_nil _ hne
        refine ⟨(index, one.2), ?_, rfl⟩
        rw [hassigns]
        exact mem_flatMap.2 ⟨one, hone, mem_map.2 ⟨index, hindex, rfl⟩⟩

/-! ## What the loops hold and skip -/

namespace Subscription

structure Holds (s s' : Subscription) (a : StreamAction) : Prop where
  wires : ∀ message ∈ s'.wires, message ∈ s.wires ∨ message ∈ a.wires
  ownOrigin : ∀ one ∈ s'.ownOrigin, one ∈ s.ownOrigin ∨ (s.isOwnOrigin one.2 = true ∧ one.2 ∈ s.wires)
  origins : ∀ origin ∈ s'.originSessions, origin ∈ s.originSessions ∨ a = .arm origin

variable {p : QQNTPlatform} {s s' : Subscription} {a : StreamAction}

theorem Holds.of_dialogs (hlog : s'.log = s.log) (hown : s'.ownOrigin = s.ownOrigin)
    (horigins : s'.originSessions = s.originSessions)
    (hdialogs : ∀ message ∈ s'.dialogs.wires, message ∈ s.wires ∨ message ∈ a.wires) : Holds s s' a where
  wires := by
    intro message hmem
    unfold Subscription.wires at hmem
    rw [hlog] at hmem
    rcases mem_append.1 hmem with hmem | hmem
    · exact .inl (mem_append_left _ hmem)
    · exact hdialogs message hmem
  ownOrigin := fun one hone => .inl (hown ▸ hone)
  origins := fun origin ho => .inl (horigins ▸ ho)

theorem Holds.of_same (hlog : s'.log = s.log) (hown : s'.ownOrigin = s.ownOrigin)
    (horigins : s'.originSessions = s.originSessions) (hdialogs : s'.dialogs = s.dialogs) : Holds s s' a :=
  .of_dialogs hlog hown horigins (fun _ hmem => .inl (mem_append_right _ (hdialogs ▸ hmem)))

variable {message : WireMessage}

theorem Holds.of_skip {position : Option Nat} (hlog : s'.log = s.log)
    (hown : s'.ownOrigin = (position, message) :: s.ownOrigin) (horigins : s'.originSessions = s.originSessions)
    (hdialogs : ∀ m ∈ s'.dialogs.wires, m ∈ s.wires) (harmed : s.isOwnOrigin message = true)
    (hwire : message ∈ s.wires) : Holds s s' a where
  wires := by
    intro m hmem
    unfold Subscription.wires at hmem
    rw [hlog] at hmem
    rcases mem_append.1 hmem with hmem | hmem
    · exact .inl (mem_append_left _ hmem)
    · exact .inl (hdialogs m hmem)
  ownOrigin := by
    intro one hone
    rw [hown] at hone
    rcases mem_cons.1 hone with rfl | hone
    · exact .inr ⟨harmed, hwire⟩
    · exact .inl hone
  origins := fun origin ho => .inl (horigins ▸ ho)

theorem mem_wires_of_frame {i : Nat} {frame : Frame} (hframe : s.log[i]? = some frame)
    (hmem : message ∈ frame.wires) : message ∈ s.wires :=
  mem_append_left _ (mem_flatMap.2 ⟨frame, mem_of_getElem? hframe, hmem⟩)

theorem holds_handle {i : Nat} {frame : Frame} (hframe : s.log[i]? = some frame) : Holds s (s.handle p i frame) a := by
  unfold Subscription.handle
  cases hevent : frame.event with
  | nativeAvsdk => exact .of_same rfl rfl rfl rfl
  | callSignal valid => cases valid <;> exact .of_same rfl rfl rfl rfl
  | request => exact .of_same rfl rfl rfl rfl
  | message conversation message =>
    dsimp only
    split
    · exact .of_same rfl rfl rfl rfl
    · split
      · exact .of_same rfl rfl rfl rfl
      · split
        · rename_i hown
          refine .of_skip rfl rfl rfl (fun m hm => mem_append_right _ hm) hown (mem_wires_of_frame hframe ?_)
          unfold Frame.wires
          rw [hevent]
          exact mem_singleton_self _
        · unfold Subscription.dispatchMessage
          split
          · exact .of_same rfl rfl rfl rfl
          · exact .of_same rfl rfl rfl rfl
  | messageEdit conversation message =>
    dsimp only
    split
    · exact .of_same rfl rfl rfl rfl
    · split
      · rename_i hown
        refine .of_skip rfl rfl rfl (fun m hm => mem_append_right _ hm) hown (mem_wires_of_frame hframe ?_)
        unfold Frame.wires
        rw [hevent]
        exact mem_singleton_self _
      · exact .of_same rfl rfl rfl rfl
  | other conversation =>
    dsimp only
    split
    · exact .of_same rfl rfl rfl rfl
    · exact .of_same rfl rfl rfl rfl

theorem mem_recoverDialogMessages {previousId : Option String} {latest : WireMessage} {history : Option (List WireMessage)}
    (h : message ∈ p.recoverDialogMessages previousId latest history) :
    message = latest ∨ ∃ messages, history = some messages ∧ message ∈ messages := by
  unfold QQNTPlatform.recoverDialogMessages at h
  split at h
  · rename_i messages
    rw [mem_mergeSort] at h
    split at h
    · exact .inr ⟨messages, rfl, (mem_filter.1 h).1⟩
    · rcases mem_append.1 h with h | h
      · exact .inr ⟨messages, rfl, (mem_filter.1 h).1⟩
      · exact .inl (mem_singleton.1 h)
  · exact .inl (mem_singleton.1 h)

theorem foldl_setKnown_frame (page : List Dialog) (s : Subscription) :
    let s' := page.foldl (fun s dialog =>
      s.setKnown dialog.conversation (dialog.lastMessage.map (fun message => message.id))) s
    s'.log = s.log ∧ s'.ownOrigin = s.ownOrigin ∧ s'.originSessions = s.originSessions := by
  induction page generalizing s with
  | nil => exact ⟨rfl, rfl, rfl⟩
  | cons dialog page ih => exact ih _

/-- **What a step of the loops holds and skips.** -/
theorem holds_step (hs : s.step p a = some s') : Holds s s' a := by
  unfold Subscription.step at hs
  cases a <;> dsimp only at hs
  case emit frame =>
    cases hs
    refine ⟨fun message hmem => ?_, fun _ h => .inl h, fun _ h => .inl h⟩
    rcases mem_append.1 hmem with hmem | hmem
    · rw [flatMap_append] at hmem
      rcases mem_append.1 hmem with hmem | hmem
      · exact .inl (mem_append_left _ hmem)
      · obtain ⟨f, hf, hmem⟩ := mem_flatMap.1 hmem
        rw [mem_singleton.1 hf] at hmem
        exact .inr hmem
    · exact .inl (mem_append_right _ hmem)
  case arm origin =>
    split at hs
    · cases hs
    · cases hs
      refine ⟨fun _ h => .inl h, fun _ h => .inl h, fun o ho => ?_⟩
      rcases mem_cons.1 ho with rfl | ho
      · exact .inr rfl
      · exact .inl ho
  case expire origin =>
    cases hs
    exact ⟨fun _ h => .inl h, fun _ h => .inl h, fun o ho => .inl (mem_filter.1 ho).1⟩
  case start =>
    split at hs
    · cases hs
      exact .of_dialogs rfl rfl rfl (fun _ h => by cases h)
    · cases hs
  case crash =>
    split at hs
    · cases hs
    · cases hs
      refine ⟨fun message hmem => ?_, fun _ h => .inl h, fun _ h => by cases h⟩
      rcases mem_append.1 hmem with hmem | hmem
      · exact .inl (mem_append_left _ hmem)
      · cases hmem
  case load =>
    split at hs <;> cases hs
    exact .of_same rfl rfl rfl rfl
  case connect =>
    split at hs <;> cases hs
    exact .of_same rfl rfl rfl rfl
  case receive =>
    split at hs
    · obtain ⟨frame, hframe, rfl⟩ := Option.map_eq_some_iff.1 hs
      exact holds_handle hframe
    · cases hs
  case prepared =>
    split at hs <;> cases hs
    exact .of_same rfl rfl rfl rfl
  case dispatched =>
    split at hs
    · obtain ⟨frame, hframe, rfl⟩ := Option.map_eq_some_iff.1 hs
      exact .of_same rfl rfl rfl rfl
    · cases hs
  case handled =>
    split at hs
    · obtain ⟨frame, hframe, rfl⟩ := Option.map_eq_some_iff.1 hs
      exact .of_same rfl rfl rfl rfl
    · cases hs
  case store =>
    split at hs <;> cases hs
    exact .of_same rfl rfl rfl rfl
  case advance =>
    split at hs <;> cases hs
    exact .of_same rfl rfl rfl rfl
  case streamFails =>
    have hrelease : (s.releaseStream p).log = s.log ∧ (s.releaseStream p).ownOrigin = s.ownOrigin ∧
        (s.releaseStream p).originSessions = s.originSessions ∧ (s.releaseStream p).dialogs = s.dialogs := by
      unfold releaseStream
      split <;> exact ⟨rfl, rfl, rfl, rfl⟩
    obtain ⟨hlog, hown, horigins, hdialogs⟩ := hrelease
    split at hs <;> cases hs
    exact .of_same hlog hown horigins hdialogs
  case fetched page more =>
    split at hs
    · cases hs
      exact .of_dialogs rfl rfl rfl (fun _ h => .inr h)
    · cases hs
      obtain ⟨hlog, hown, horigins⟩ := foldl_setKnown_frame page s
      exact .of_dialogs hlog hown horigins (fun _ h => by cases h)
    · cases hs
  case nextDialog =>
    split at hs
    · cases hs
      exact .of_dialogs rfl rfl rfl (fun _ h => by cases h)
    · rename_i dialog dialogs hdialogs
      have hmem : ∀ m, m ∈ dialog.wires ∨ m ∈ dialogs.flatMap Dialog.wires → m ∈ s.wires := by
        intro m hm
        refine mem_append_right _ ?_
        rw [hdialogs]
        exact mem_append.2 hm
      split at hs
      · split at hs
        · cases hs
          exact .of_dialogs rfl rfl rfl (fun m h => .inl (hmem m (.inr h)))
        · cases hs
          exact .of_dialogs rfl rfl rfl (fun m h => .inl (hmem m (.inr h)))
      · rename_i latest hlatest
        split at hs
        · cases hs
          exact .of_dialogs rfl rfl rfl (fun m h => .inl (hmem m (.inr h)))
        · cases hs
          refine .of_dialogs rfl rfl rfl (fun m h => ?_)
          rcases mem_cons.1 h with rfl | h
          · refine .inl (hmem _ (.inl ?_))
            unfold Dialog.wires
            rw [hlatest]
            exact mem_singleton_self _
          · exact .inl (hmem m (.inr h))
    · cases hs
  case recover history =>
    split at hs
    · rename_i conversation previousId latest dialogs hdialogs
      cases hs
      refine .of_dialogs rfl rfl rfl (fun m h => ?_)
      have hheld : ∀ m, m = latest ∨ m ∈ dialogs.flatMap Dialog.wires → m ∈ s.wires := by
        intro m hm
        refine mem_append_right _ ?_
        rw [hdialogs]
        exact mem_cons.2 hm
      rcases mem_append.1 h with h | h
      · rcases mem_recoverDialogMessages h with rfl | ⟨messages, rfl, hmessage⟩
        · exact .inl (hheld _ (.inl rfl))
        · exact .inr hmessage
      · exact .inl (hheld m (.inr h))
    · cases hs
  case nextMessage =>
    split at hs
    · rename_i conversation dialogs hdialogs
      cases hs
      refine .of_dialogs rfl rfl rfl (fun m h => .inl (mem_append_right _ ?_))
      rw [hdialogs]
      exact h
    · rename_i conversation message messages dialogs hdialogs
      have hheld : ∀ m, m = message ∨ m ∈ messages ++ dialogs.flatMap Dialog.wires → m ∈ s.wires := by
        intro m hm
        refine mem_append_right _ ?_
        rw [hdialogs]
        exact mem_cons.2 hm
      split at hs
      · rename_i hown
        cases hs
        exact .of_skip rfl rfl rfl (fun m h => hheld m (.inr h)) hown (hheld _ (.inl rfl))
      · split at hs
        · cases hs
          exact .of_dialogs rfl rfl rfl (fun m h => .inl (hheld m (.inr h)))
        · cases hs
          exact .of_dialogs rfl rfl rfl (fun m h => .inl (hheld m (mem_cons.1 h)))
    · cases hs
  case polledPrepared =>
    split at hs
    · rename_i conversation message messages dialogs hdialogs
      cases hs
      refine .of_dialogs rfl rfl rfl (fun m h => .inl (mem_append_right _ ?_))
      rw [hdialogs]
      exact h
    · cases hs
  case polledDispatched =>
    split at hs
    · rename_i conversation message messages dialogs hdialogs
      cases hs
      refine .of_dialogs rfl rfl rfl (fun m h => .inl (mem_append_right _ ?_))
      rw [hdialogs]
      exact mem_cons_of_mem _ h
    · cases hs
  case pollFails =>
    have hrelease : s.releaseDialogs.log = s.log ∧ s.releaseDialogs.ownOrigin = s.ownOrigin ∧
        s.releaseDialogs.originSessions = s.originSessions := by
      unfold releaseDialogs
      split <;> exact ⟨rfl, rfl, rfl⟩
    obtain ⟨hlog, hown, horigins⟩ := hrelease
    split at hs <;> cases hs
    exact .of_dialogs hlog hown horigins (fun _ h => by cases h)

end Subscription

/-! ## The calls keep what the bridge has accepted -/

namespace OwnCall

def Inv (call : OwnCall) : Prop :=
  ∀ sent plans accepted, call.stage = .splitting sent plans accepted →
    sent.map (fun one => one.1) ++ plans = sendPlans call.files call.hasText ∧ plans ≠ []

variable {call call' : OwnCall}

theorem inv_send (files : List Bool) (hasText : Bool) : (send files hasText).Inv := by
  intro sent plans accepted h
  unfold send at h ⊢
  dsimp only at h ⊢
  split at h
  · rename_i hfile
    cases h
    refine ⟨rfl, fun hnil => ?_⟩
    obtain ⟨hmedia, _⟩ := mediaOf_sendPlans files hasText
    rw [hnil] at hmedia
    cases files with
    | nil => cases hfile
    | cons file files =>
      have hlen := congrArg List.length hmedia
      rw [length_range] at hlen
      cases hlen
  · cases h

theorem inv_forward : forward.Inv := fun _ _ _ h => by cases h

theorem inv_of_stage {stage : CallStage} (h : ∀ sent plans accepted, stage ≠ .splitting sent plans accepted) :
    ({ call with stage } : OwnCall).Inv := fun sent plans accepted hs => absurd hs (h sent plans accepted)

/-- **What the bridge accepts, the call holds.** -/
theorem accept_spec {id : String} (hinv : call.Inv) (hfailed : call.stage ≠ .failed) (h : call.accept id = some call') :
    call'.Inv ∧ id ∈ call'.held ∧ ∀ x ∈ call.held, x ∈ call'.held := by
  unfold accept at h
  unfold held
  split at h
  · rename_i hstage
    cases h
    rw [hstage]
    exact ⟨inv_of_stage (fun _ _ _ h => by cases h), mem_singleton_self _, fun _ hx => by cases hx⟩
  · rename_i sent plans hstage
    cases h
    rw [hstage]
    refine ⟨?_, mem_append_right _ (mem_singleton_self _), fun x hx => ?_⟩
    · intro sent' plans' accepted hs
      cases hs
      exact hinv sent plans none hstage
    · dsimp only at hx
      rw [Option.toList_none, append_nil] at hx
      exact mem_append_left _ hx
  · rename_i ids hstage
    cases h
    rw [hstage]
    exact ⟨inv_of_stage (fun _ _ _ h => by cases h), mem_append_right _ (mem_singleton_self _),
      fun x hx => mem_append_left _ hx⟩
  · rename_i hstage
    exact absurd hstage hfailed
  · cases h

/-- **An answer loses nothing**, when it has the media that were asked for. -/
theorem reply_spec {outputMedia : Nat} (hinv : call.Inv)
    (hmedia : ∀ sent plan plans accepted, call.stage = .splitting sent (plan :: plans) accepted →
      outputMedia = plan.media.length)
    (h : call.reply outputMedia = some call') : call'.Inv ∧ ∀ x ∈ call.held, x ∈ call'.held := by
  unfold reply at h
  split at h
  · rename_i id hstage
    cases h
    unfold held
    rw [hstage]
    exact ⟨inv_of_stage (fun _ _ _ h => by cases h), fun x hx => hx⟩
  · rename_i sent plan plans id hstage
    cases h
    obtain ⟨hplans, _⟩ := hinv _ _ _ hstage
    have hheld : ∀ x ∈ call.held, x ∈ (sent ++ [(plan, id)]).map (fun one => one.2) := by
      intro x hx
      unfold held at hx
      rw [hstage] at hx
      rw [map_append]
      exact hx
    unfold planSent
    rw [if_neg (fun hne => hne (hmedia _ _ _ _ hstage))]
    split
    · rename_i next rest
      refine ⟨?_, fun x hx => mem_append_left _ (hheld x hx)⟩
      intro sent' plans' accepted hs
      cases hs
      refine ⟨?_, cons_ne_nil _ _⟩
      rw [map_append, append_assoc]
      exact hplans
    · have hsent : (sent ++ [(plan, id)]).map (fun one => one.1) = sendPlans call.files call.hasText := by
        rw [map_append]
        exact hplans
      obtain ⟨ids, hids, hall⟩ := logicalMessage_of_sent hsent (append_ne_nil_of_right_ne_nil _ (cons_ne_nil _ _))
      rw [hids]
      refine ⟨inv_of_stage (fun _ _ _ h => by cases h), fun x hx => ?_⟩
      obtain ⟨one, hone, rfl⟩ := mem_map.1 (hheld x hx)
      exact hall one hone
  · rename_i ids hstage
    cases h
    unfold held
    rw [hstage]
    exact ⟨inv_of_stage (fun _ _ _ h => by cases h), fun x hx => hx⟩
  · cases h

theorem prepared_spec (h : call.prepared = some call') : call'.Inv ∧ ∀ x ∈ call.held, x ∈ call'.held := by
  unfold prepared at h
  split at h
  · rename_i ids hstage
    cases h
    unfold held
    rw [hstage]
    exact ⟨inv_of_stage (fun _ _ _ h => by cases h), fun x hx => hx⟩
  · cases h

end OwnCall

namespace Session

structure Inv (s : Session) : Prop where
  call : ∀ origin call, s.calls origin = some call → call.Inv
  held : ∀ origin call, s.calls origin = some call → ∀ id, (origin, id) ∈ s.accepted → id ∈ call.held
  armed : ∀ origin ∈ s.loops.originSessions, ∃ call, s.calls origin = some call
  wires : ∀ message ∈ s.loops.wires, s.isAccepted message = true
  own : ∀ one ∈ s.loops.ownOrigin, s.isAccepted one.2 = true ∧
    ∀ origin, one.2.originRequestId = some origin → ∃ call, s.calls origin = some call

variable {p : QQNTPlatform} {s s' : Session}

variable {origin : String}

theorem mem_of_isAccepted {message : WireMessage} (h : s.isAccepted message = true)
    (horigin : message.originRequestId = some origin) : (origin, message.id) ∈ s.accepted := by
  unfold isAccepted at h
  rw [horigin] at h
  exact contains_iff_mem.1 h

/-- **What holds between the steps shows that nothing is hidden.** -/
theorem Inv.nothingHidden (h : Inv s) : s.NothingHidden := by
  intro position message origin hmem horigin
  obtain ⟨haccepted, hcall⟩ := h.own (position, message) hmem
  obtain ⟨call, hc⟩ := hcall origin horigin
  have hheld := h.held origin call hc message.id (mem_of_isAccepted haccepted horigin)
  refine ⟨call, hc, ?_⟩
  unfold OwnCall.held at hheld
  unfold OwnCall.settled
  cases hstage : call.stage with
  | succeeded ids =>
    rw [hstage] at hheld
    exact .inr ⟨ids, rfl, hheld⟩
  | failed =>
    rw [hstage] at hheld
    cases hheld
  | _ => exact .inl rfl

theorem Inv.loops (h : Inv s) {a : StreamAction} {loops : Subscription} (hs : s.loops.step p a = some loops)
    (hwires : ∀ message ∈ a.wires, s.isAccepted message = true)
    (harm : ∀ origin, a = .arm origin → ∃ call, s.calls origin = some call) : Inv { s with loops } := by
  have hholds := Subscription.holds_step hs
  refine ⟨h.call, h.held, fun origin ho => ?_, fun message hm => ?_, fun one hone => ?_⟩
  · rcases hholds.origins origin ho with ho | ho
    · exact h.armed origin ho
    · exact harm origin ho
  · rcases hholds.wires message hm with hm | hm
    · exact h.wires message hm
    · exact hwires message hm
  · rcases hholds.ownOrigin one hone with hone | ⟨harmed, hwire⟩
    · exact h.own one hone
    · refine ⟨h.wires one.2 hwire, fun origin horigin => h.armed origin ?_⟩
      unfold Subscription.isOwnOrigin at harmed
      rw [horigin] at harmed
      exact contains_iff_mem.1 (Bool.and_eq_true_iff.1 harmed).2

theorem setCall_self (s : Session) (origin : String) (call : OwnCall) :
    (s.setCall origin call).calls origin = some call := Function.update_self _ _ _

theorem setCall_of_ne (s : Session) {origin o : String} (call : OwnCall) (ho : o ≠ origin) :
    (s.setCall origin call).calls o = s.calls o := Function.update_of_ne ho _ _

theorem isAccepted_mono {message : WireMessage} (h : s.isAccepted message = true) (hgrow : s.accepted ⊆ s'.accepted) :
    s'.isAccepted message = true := by
  cases ho : message.originRequestId with
  | none =>
    unfold isAccepted
    rw [ho]
  | some o =>
    have hmem := mem_of_isAccepted h ho
    unfold isAccepted
    rw [ho]
    exact contains_iff_mem.2 (hgrow hmem)

theorem Inv.setCall (h : Inv s) {call : OwnCall} (accepted : List (String × String)) (hcall : call.Inv)
    (hgrow : s.accepted ⊆ accepted) (hother : ∀ o id, (o, id) ∈ accepted → o ≠ origin → (o, id) ∈ s.accepted)
    (hheld : ∀ id, (origin, id) ∈ accepted → id ∈ call.held) : Inv { s.setCall origin call with accepted } := by
  have hsome : ∀ o, (∃ c, s.calls o = some c) → ∃ c, (s.setCall origin call).calls o = some c := by
    rintro o ⟨c, hc⟩
    by_cases ho : o = origin
    · exact ⟨call, ho ▸ setCall_self s o call⟩
    · exact ⟨c, (setCall_of_ne s call ho).trans hc⟩
  have haccepted : ∀ message, s.isAccepted message = true →
      ({ s.setCall origin call with accepted } : Session).isAccepted message = true :=
    fun message hm => isAccepted_mono hm hgrow
  refine ⟨fun o c hc => ?_, fun o c hc id hid => ?_, fun o ho => hsome o (h.armed o ho), fun message hm =>
    haccepted message (h.wires message hm), fun one hone => ⟨haccepted one.2 (h.own one hone).1, fun o ho =>
    hsome o ((h.own one hone).2 o ho)⟩⟩
  · by_cases ho : o = origin
    · subst ho
      obtain rfl := Option.some.inj ((setCall_self s o call).symm.trans hc)
      exact hcall
    · exact h.call o c ((setCall_of_ne s call ho).symm.trans hc)
  · by_cases ho : o = origin
    · subst ho
      obtain rfl := Option.some.inj ((setCall_self s o call).symm.trans hc)
      exact hheld id hid
    · exact h.held o c ((setCall_of_ne s call ho).symm.trans hc) id (hother o id hid ho)

theorem Inv.advance (h : Inv s) {f : OwnCall → Option OwnCall}
    (hf : ∀ call call', s.calls origin = some call → f call = some call' → call.Inv →
      call'.Inv ∧ ∀ id, (origin, id) ∈ s.accepted → id ∈ call.held → id ∈ call'.held)
    (hs : s.advance origin f = some s') : Inv s' := by
  unfold Session.advance at hs
  obtain ⟨call, hcall, hs⟩ := Option.bind_eq_some_iff.1 hs
  obtain ⟨call', hcall', rfl⟩ := Option.map_eq_some_iff.1 hs
  obtain ⟨hinv, hheld⟩ := hf call call' hcall hcall' (h.call origin call hcall)
  exact h.setCall s.accepted hinv (List.Subset.refl _) (fun _ _ hm _ => hm)
    (fun id hid => hheld id hid (h.held origin call hcall id hid))

theorem inv_empty : Inv empty where
  call := fun _ _ h => by cases h
  held := fun _ _ h => by cases h
  armed := fun _ h => by cases h
  wires := fun _ h => by cases h
  own := fun _ h => by cases h

theorem Inv.begin (h : Inv s) {call : OwnCall} (hcall : call.Inv)
    (hs : s.begin p origin call = some s') : Inv s' := by
  unfold Session.begin at hs
  split at hs
  · cases hs
  · rename_i hfresh
    obtain ⟨loops, hloops, rfl⟩ := Option.map_eq_some_iff.1 hs
    rw [Bool.or_eq_true, Bool.or_eq_true, not_or, not_or] at hfresh
    have hnone : ∀ id, (origin, id) ∉ s.accepted := by
      intro id hid
      exact hfresh.1.2 (any_eq_true.2 ⟨(origin, id), hid, beq_self_eq_true origin⟩)
    have hset : Inv (s.setCall origin call) := h.setCall s.accepted hcall (List.Subset.refl _)
      (fun _ _ hm _ => hm) (fun id hid => absurd hid (hnone id))
    refine hset.loops hloops (fun _ hm => by cases hm) (fun o ho => ?_)
    cases ho
    exact ⟨call, setCall_self s _ call⟩

/-- **Every step keeps what holds**, when no call loses what the bridge has accepted of it. -/
theorem Inv.step {a : SessionAction} (h : Inv s) (hok : s.NoLoss a) (hs : s.step p a = some s') : Inv s' := by
  unfold Session.step at hs
  split at hs
  · cases hs
  · cases hs
  · cases hs
  · rename_i a hnotArm _ _
    split at hs
    · rename_i hwires
      obtain ⟨loops, hloops, rfl⟩ := Option.map_eq_some_iff.1 hs
      exact h.loops hloops (fun m hm => all_eq_true.1 hwires m hm) (fun origin ha => absurd ha (hnotArm origin))
    · cases hs
  · rename_i origin files hasText
    exact h.begin (OwnCall.inv_send files hasText) hs
  · exact h.begin OwnCall.inv_forward hs
  · rename_i origin id
    split at hs
    · rename_i hnone
      cases hs
      refine ⟨h.call, fun o c hc x hx => ?_, h.armed, fun m hm => isAccepted_mono (h.wires m hm) (subset_cons_self _ _),
        fun one hone => ⟨isAccepted_mono (h.own one hone).1 (subset_cons_self _ _), (h.own one hone).2⟩⟩
      rcases mem_cons.1 hx with hx | hx
      · cases hx
        rw [hnone] at hc
        cases hc
      · exact h.held o c hc x hx
    · rename_i call hcall
      obtain ⟨call', haccept, rfl⟩ := Option.map_eq_some_iff.1 hs
      obtain ⟨hinv, hid, hheld⟩ := OwnCall.accept_spec (h.call origin call hcall) (hok call hcall) haccept
      refine h.setCall _ hinv (subset_cons_self _ _) (fun o x hm ho => ?_) (fun x hx => ?_)
      · rcases mem_cons.1 hm with hm | hm
        · cases hm
          exact absurd rfl ho
        · exact hm
      · rcases mem_cons.1 hx with hx | hx
        · cases hx
          exact hid
        · exact hheld x (h.held origin call hcall x hx)
  · rename_i origin outputMedia
    refine h.advance (fun call call' hcall hreply hinv => ?_) hs
    obtain ⟨hinv', hheld⟩ := OwnCall.reply_spec hinv (fun sent plan plans accepted hstage =>
      hok call sent plan plans accepted hcall hstage) hreply
    exact ⟨hinv', fun id _ hid => hheld id hid⟩
  · rename_i origin
    refine h.advance (fun call call' hcall hprepared hinv => ?_) hs
    obtain ⟨hinv', hheld⟩ := OwnCall.prepared_spec hprepared
    exact ⟨hinv', fun id _ hid => hheld id hid⟩
  · rename_i origin
    refine h.advance (fun call call' hcall hfail hinv => ?_) hs
    split at hfail
    · cases hfail
    · cases hfail
      exact ⟨OwnCall.inv_of_stage (fun _ _ _ h => by cases h), fun id hid _ => absurd ⟨id, hid⟩ hok⟩
  · rename_i origin
    obtain ⟨call, hcall, hs⟩ := Option.bind_eq_some_iff.1 hs
    split at hs
    · obtain ⟨loops, hloops, rfl⟩ := Option.map_eq_some_iff.1 hs
      exact h.loops hloops (fun _ hm => by cases hm) (fun _ ha => by cases ha)
    · cases hs
  · obtain ⟨loops, hloops, rfl⟩ := Option.map_eq_some_iff.1 hs
    have hl : Inv { s with loops } := h.loops hloops (fun _ hm => by cases hm) (fun _ ha => by cases ha)
    have hcalls : ∀ o, (∃ c, s.calls o = some c) → ∃ c, abandon s.calls o = some c := by
      rintro o ⟨c, hc⟩
      unfold abandon
      rw [hc]
      exact ⟨_, rfl⟩
    refine ⟨fun o c hc => ?_, fun o c hc id hid => ?_, fun o ho => hcalls o (hl.armed o ho), hl.wires,
      fun one hone => ⟨(hl.own one hone).1, fun o ho => hcalls o ((hl.own one hone).2 o ho)⟩⟩
    · obtain ⟨call, hcall, rfl⟩ := Option.map_eq_some_iff.1 hc
      split
      · exact h.call o call hcall
      · exact OwnCall.inv_of_stage (fun _ _ _ h => by cases h)
    · obtain ⟨call, hcall, rfl⟩ := Option.map_eq_some_iff.1 hc
      split
      · exact h.held o call hcall id hid
      · rename_i hsettled
        exact absurd ⟨id, hid⟩ (hok o call hcall (Bool.not_eq_true _ ▸ hsettled))

/-- **No own message is hidden**, in every run in which no call loses what the bridge has accepted of it. -/
theorem nothing_hidden (p : QQNTPlatform) {s : Session} (h : Runs.Reachable (Session.step p) NoLoss empty s) :
    s.NothingHidden := by
  have hinv : Inv s := h.invariant inv_empty (fun _ _ _ _ hI hok hs => hI.step hok hs)
  exact hinv.nothingHidden

/-- A test of a step that implies `NoLoss`. -/
def losesNothing (s : Session) : SessionAction → Bool
  | .fail _ | .crash => false
  | .accept origin _ => (s.calls origin).all (fun call => call.stage != .failed)
  | .reply origin _  => (s.calls origin).all (fun call => match call.stage with
    | .splitting .. => false
    | _             => true)
  | _ => true

theorem noLoss_of_test (s : Session) (a : SessionAction) (h : s.losesNothing a = true) : s.NoLoss a := by
  cases a with
  | fail origin => cases h
  | crash => cases h
  | accept origin id =>
    intro call hcall hfailed
    unfold losesNothing at h
    dsimp only at h
    rw [hcall, Option.all_some, hfailed] at h
    cases h
  | reply origin outputMedia =>
    intro call sent plan plans accepted hcall hstage
    unfold losesNothing at h
    dsimp only at h
    rw [hcall, Option.all_some, hstage] at h
    cases h
  | _ => trivial

def echo (origin id : String) : WireMessage :=
  { id, originRequestId := some origin, timestamp := 0, serviceActionText := none }

def echoedSend : List SessionAction :=
  [.loop .start, .loop .load, .loop .connect, .send "r" [] true, .accept "r" "5",
   .loop (.emit ⟨.message "c" (echo "r" "5"), true⟩), .loop .receive]

theorem nothing_hidden_echoedSend : ∃ s : Session, s.loops.ownOrigin = [(some 0, echo "r" "5")] ∧
    (s.calls "r").map (fun call => call.stage) = some (.succeeded ["5"]) ∧ s.NothingHidden := by
  have hstate : (Runs.run (fun s a => if s.losesNothing a then s.step Subscription.plainPlatform a else none) empty
      (echoedSend ++ [.reply "r" 0, .prepared "r"])).map
        (fun s => (s.loops.ownOrigin, (s.calls "r").map (fun call => call.stage))) =
      some ([(some 0, echo "r" "5")], some (.succeeded ["5"])) := by decide +kernel
  obtain ⟨s, hrun, hs⟩ := Option.map_eq_some_iff.1 hstate
  obtain ⟨hown, hcall⟩ := Prod.mk.inj hs
  exact ⟨s, hown, hcall, nothing_hidden Subscription.plainPlatform (Runs.reachable_of_tested_run noLoss_of_test .init hrun)⟩

/-- **An own message is hidden**: the stream skips the echo of a send whose request then times out. -/
theorem echo_of_failed_send_hidden :
    ¬ ∀ s, Runs.Reachable (Session.step Subscription.plainPlatform) (fun _ _ => True) empty s → s.NothingHidden := by
  intro hall
  have hstate : (Runs.run (Session.step Subscription.plainPlatform) empty (echoedSend ++ [.fail "r"])).map
      (fun s => (s.loops.ownOrigin, (s.calls "r").map (fun call => call.stage))) =
      some ([(some 0, echo "r" "5")], some .failed) := by decide +kernel
  obtain ⟨s, hrun, hs⟩ := Option.map_eq_some_iff.1 hstate
  obtain ⟨hown, hstage⟩ := Prod.mk.inj hs
  obtain ⟨call, hcall, hshown⟩ := hall s (Runs.reachable_of_run (fun _ _ _ => trivial) .init hrun) (some 0) (echo "r" "5") "r"
    (by rw [hown]; exact mem_singleton_self _) rfl
  rw [hcall] at hstage
  have hfailed : call.stage = .failed := Option.some.inj hstage
  rcases hshown with hsettled | ⟨ids, hids, _⟩
  · unfold OwnCall.settled at hsettled
    rw [hfailed] at hsettled
    cases hsettled
  · rw [hfailed] at hids
    cases hids

end Session

end EventStream
end Crossgram
