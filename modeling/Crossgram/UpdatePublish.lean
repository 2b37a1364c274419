import Crossgram.MessageRows
import Crossgram.TlUpdates
import Crossgram.UpdateTables
import Crossgram.Lib.Intervals
/-!
# UpdatePublish — the payload of a message event (packages/bridge/src/update-manager.ts)

`_publishMessage` reserves a delivery sized by the projection and the removed parts, or takes up the one an earlier
attempt left, renders the parts the store still finds and stores the updates as the delivery's payload.  What it reads
besides the delivery is `PublishReads`; `meanwhile` is what other writers do to the tables before each of its store
calls.  The stored updates tile the reservation exactly when as many pts were rendered as reserved.
-/
namespace Crossgram

open List

/-- A `message` event, or a `message-edit` with its event id. -/
inductive MessageEventType
  | message
  | messageEdit (eventId : String)

def MessageEventType.isEdit : MessageEventType → Bool
  | .message       => false
  | .messageEdit _ => true

structure CommittedMessageEvent where
  type : MessageEventType
  conversation : IMConversation
  timestamp : Int
  result : IngestResult

structure PlatformEventDeliveryOptions where
  deliveredViaRpc : Bool := false
  forceDelivery : Bool := false

structure PublishReads (J T P : Type) where
  hidesMessage : Bool
  /-- The conversation itself, or the parent a forum topic is shown in. -/
  displayConversation : IMConversation
  /-- `stableId(peerTlSeed(…))`. -/
  stableId : String → Nat
  users : Except String (List T)
  chats : List T
  findProjectedByTlId : Int → Option P
  render : TlMessagePartRow → P → Except String (T × List T)
  updateToJson : RawUpdates T → J
  now : Int
  retained : UpdateDelivery J → Bool
  /-- `_send` reached a connection. -/
  delivered : Bool
  meanwhile : Nat → UpdateTables J → UpdateTables J

inductive PublishOutcome (J T : Type)
  | hidden
  | unchangedMessage
  | alreadyPublished (payload : Option J)
  | failed (error : String)
  | noProjectedUpdates
  | stored (delivery : UpdateDelivery J) (payload : RawUpdates T) (published : Bool)

section

variable {J T P : Type}

def platformEventUpdateKey (session : PlatformSession) (committed : CommittedMessageEvent) : String :=
  match committed.type with
  | .message             => session.platformSessionId ++ ":message:" ++ toString committed.result.message.id
  | .messageEdit eventId => session.platformSessionId ++ ":edit:" ++ eventId

/-- `undefined` for an account-scope conversation. -/
def deliveryChannelId (io : PublishReads J T P) : Option Nat :=
  if io.displayConversation.kind = .direct then none else some (io.stableId io.displayConversation.id)

def partUpdate (committed : CommittedMessageEvent) (part : TlMessagePartRow) (message : T) (pts : Int) : TlUpdate T :=
  if committed.type.isEdit && !committed.result.addedTlMessageIds.contains part.tlMessageId then
    if committed.conversation.kind ≠ .direct then .updateEditChannelMessage message pts 1
    else .updateEditMessage message pts 1
  else
    if committed.conversation.kind ≠ .direct then .updateNewChannelMessage message pts 1
    else .updateNewMessage message pts 1

def projectParts (committed : CommittedMessageEvent) (io : PublishReads J T P) :
    Int → List TlMessagePartRow → Except String (List (TlUpdate T) × List T)
  | _,   []            => .ok ([], [])
  | pts, part :: parts =>
    match io.findProjectedByTlId part.tlMessageId with
    | none           => projectParts committed io pts parts
    | some projected =>
      match io.render part projected with
      | .error e => .error e
      | .ok (message, chats) =>
        match projectParts committed io (pts + 1) parts with
        | .error e => .error e
        | .ok rest => .ok (partUpdate committed part message (pts + 1) :: rest.1, chats ++ rest.2)

def removedUpdates (committed : CommittedMessageEvent) (io : PublishReads J T P) (delivery : UpdateDelivery J) :
    List (TlUpdate T) :=
  let removed := committed.result.removedTlMessageIds
  if committed.type.isEdit && !removed.isEmpty then
    match deliveryChannelId io with
    | none           => [.updateDeleteMessages removed delivery.pts removed.length]
    | some channelId => [.updateDeleteChannelMessages channelId removed delivery.pts removed.length]
  else []

def storePayload (eventKey : String) (options : PlatformEventDeliveryOptions) (io : PublishReads J T P)
    (t : UpdateTables J) (delivery : UpdateDelivery J) (payload : RawUpdates T) :
    UpdateTables J × PublishOutcome J T :=
  let stored := t.setUpdatePayload eventKey (io.updateToJson payload)
  if io.delivered || options.deliveredViaRpc then
    ((io.meanwhile 3 stored).markUpdatePublished eventKey, .stored delivery payload true)
  else (stored, .stored delivery payload false)

def publishDelivery (eventKey : String) (committed : CommittedMessageEvent) (options : PlatformEventDeliveryOptions)
    (io : PublishReads J T P) (t : UpdateTables J) (delivery : UpdateDelivery J) :
    UpdateTables J × PublishOutcome J T :=
  if delivery.published then (t, .alreadyPublished delivery.payload)
  else
    let t := io.meanwhile 2 t
    match io.users, projectParts committed io (delivery.pts - delivery.ptsCount) committed.result.projection with
    | .error e, _ => ((t._discardUpdateDelivery eventKey false io.now).1, .failed e)
    | _, .error e => ((t._discardUpdateDelivery eventKey false io.now).1, .failed e)
    | .ok users, .ok (rendered, projectionChats) =>
      let updates := rendered ++ removedUpdates committed io delivery
      if updates.isEmpty then ((t._discardUpdateDelivery eventKey false io.now).1, .noProjectedUpdates)
      else storePayload eventKey options io t delivery
        { updates := updates, users := users, chats := io.chats ++ projectionChats, date := delivery.date,
          seq := delivery.seq }

def _publishMessage (session : PlatformSession) (committed : CommittedMessageEvent)
    (options : PlatformEventDeliveryOptions) (io : PublishReads J T P) (t : UpdateTables J) :
    UpdateTables J × PublishOutcome J T :=
  if io.hidesMessage then (t, .hidden)
  else
    let eventKey := platformEventUpdateKey session committed
    let result := committed.result
    let t := io.meanwhile 0 t
    match t.deliveries.get eventKey with
    | some delivery => publishDelivery eventKey committed options io t delivery
    | none =>
      if committed.type.isEdit && !result.created && !result.changed && !options.forceDelivery then
        (t, .unchangedMessage)
      else
        let prepared := (io.meanwhile 1 t).prepareUpdateDelivery eventKey session.platformSessionId
          (result.projection.length + result.removedTlMessageIds.length) committed.timestamp (deliveryChannelId io)
          io.now io.retained
        publishDelivery eventKey committed options io prepared.1 prepared.2

/-! ## The pts of a stored payload -/

def foundParts (committed : CommittedMessageEvent) (io : PublishReads J T P) : List TlMessagePartRow :=
  committed.result.projection.filter (fun part => (io.findProjectedByTlId part.tlMessageId).isSome)

theorem interval_partUpdate (committed : CommittedMessageEvent) (part : TlMessagePartRow) (message : T) (pts : Int) :
    (partUpdate committed part message pts).interval = some (pts, 1) := by
  unfold partUpdate
  split <;> split <;> rfl

theorem deleted_partUpdate (committed : CommittedMessageEvent) (part : TlMessagePartRow) (message : T) (pts : Int) :
    (partUpdate committed part message pts).deleted = [] := by
  unfold partUpdate
  split <;> split <;> rfl

theorem projectParts_tiles (committed : CommittedMessageEvent) (io : PublishReads J T P) :
    ∀ (parts : List TlMessagePartRow) (pts : Int) (updates : List (TlUpdate T)) (chats : List T),
    projectParts committed io pts parts = .ok (updates, chats) →
    Intervals.Tiles pts (updates.filterMap TlUpdate.interval)
      (pts + (parts.filter (fun part => (io.findProjectedByTlId part.tlMessageId).isSome)).length) ∧
    ∀ u ∈ updates, u.deleted = []
  | [], pts, updates, chats, h => by
    simp only [projectParts, Except.ok.injEq, Prod.mk.injEq] at h
    obtain ⟨rfl, rfl⟩ := h
    simp
  | part :: parts, pts, updates, chats, h => by
    rw [projectParts] at h
    split at h
    · rename_i hnone
      rw [filter_cons_of_neg (by simp [hnone])]
      exact projectParts_tiles committed io parts pts updates chats h
    · rename_i projected hsome
      rw [filter_cons_of_pos (by simp [hsome])]
      split at h
      · cases h
      · rename_i message own hrender
        split at h
        · cases h
        · rename_i rest hrest
          obtain ⟨htiles, hdel⟩ := projectParts_tiles committed io parts (pts + 1) rest.1 rest.2 hrest
          simp only [Except.ok.injEq, Prod.mk.injEq] at h
          obtain ⟨rfl, -⟩ := h
          refine ⟨?_, fun u hu => ?_⟩
          · rw [filterMap_cons_some (interval_partUpdate _ _ _ _), Intervals.tiles_cons, length_cons]
            refine ⟨by omega, ?_⟩
            have : pts + 1 + ((parts.filter (fun part => (io.findProjectedByTlId part.tlMessageId).isSome)).length : Int)
              = pts + ((parts.filter (fun part => (io.findProjectedByTlId part.tlMessageId).isSome)).length + 1 : Nat) := by
              omega
            exact this ▸ htiles
          · rcases mem_cons.1 hu with rfl | hu
            · exact deleted_partUpdate _ _ _ _
            · exact hdel u hu

variable {options : PlatformEventDeliveryOptions} {io : PublishReads J T P}

variable {t : UpdateTables J} {published : Bool}

theorem storePayload_stored {eventKey : String}
    {met delivery : UpdateDelivery J} {built payload : RawUpdates T}
    (h : (storePayload eventKey options io t met built).2 = .stored delivery payload published) :
    delivery = met ∧ payload = built := by
  unfold storePayload at h
  simp only at h
  split at h <;> (cases h; exact ⟨rfl, rfl⟩)

theorem publishDelivery_stored {eventKey : String} {committed : CommittedMessageEvent}
    {met delivery : UpdateDelivery J} {payload : RawUpdates T}
    (h : (publishDelivery eventKey committed options io t met).2 = .stored delivery payload published) :
    delivery = met ∧ ∃ rendered chats,
      projectParts committed io (met.pts - met.ptsCount) committed.result.projection = .ok (rendered, chats) ∧
      payload.updates = rendered ++ removedUpdates committed io met := by
  unfold publishDelivery at h
  split at h
  · cases h
  · simp only at h
    split at h
    · cases h
    · cases h
    · rename_i users rendered chats husers hparts
      split at h
      · cases h
      · obtain ⟨rfl, rfl⟩ := storePayload_stored h
        exact ⟨rfl, rendered, chats, hparts, rfl⟩

theorem publishMessage_stored {session : PlatformSession} {committed : CommittedMessageEvent}
    {delivery : UpdateDelivery J} {payload : RawUpdates T}
    (h : (_publishMessage session committed options io t).2 = .stored delivery payload published) :
    ∃ rendered chats,
      projectParts committed io (delivery.pts - delivery.ptsCount) committed.result.projection = .ok (rendered, chats) ∧
      payload.updates = rendered ++ removedUpdates committed io delivery := by
  unfold _publishMessage at h
  split at h
  · cases h
  · simp only at h
    split at h
    · obtain ⟨rfl, hparts⟩ := publishDelivery_stored h
      exact hparts
    · split at h
      · cases h
      · obtain ⟨rfl, hparts⟩ := publishDelivery_stored h
        exact hparts

theorem removedUpdates_spec (committed : CommittedMessageEvent) (io : PublishReads J T P) (delivery : UpdateDelivery J) :
    (committed.type.isEdit ∧ committed.result.removedTlMessageIds ≠ [] ∧
      ∃ u, removedUpdates committed io delivery = [u] ∧ u.deleted = committed.result.removedTlMessageIds ∧
        u.interval = some (delivery.pts, committed.result.removedTlMessageIds.length)) ∨
    ((committed.type.isEdit = false ∨ committed.result.removedTlMessageIds = []) ∧
      removedUpdates committed io delivery = []) := by
  unfold removedUpdates
  cases hedit : committed.type.isEdit with
  | false => exact Or.inr ⟨Or.inl rfl, by simp⟩
  | true =>
    cases hrem : committed.result.removedTlMessageIds with
    | nil => exact Or.inr ⟨Or.inr rfl, by simp⟩
    | cons id ids =>
      left
      refine ⟨rfl, by simp, ?_⟩
      simp only [isEmpty_cons, Bool.not_false, Bool.and_self, if_true]
      cases deliveryChannelId io <;> exact ⟨_, rfl, rfl, rfl⟩

/-- **A stored payload tiles its reservation, with every removed part deleted, exactly when** the parts found and, for an
edit, the removed parts are as many as the pts reserved, and only an edit has removed parts. -/
theorem stored_payload_tiles_iff (session : PlatformSession) (committed : CommittedMessageEvent)
    (options : PlatformEventDeliveryOptions) (io : PublishReads J T P) (t : UpdateTables J)
    (delivery : UpdateDelivery J) (payload : RawUpdates T) (published : Bool)
    (h : (_publishMessage session committed options io t).2 = .stored delivery payload published) :
    (Intervals.Tiles (delivery.pts - delivery.ptsCount) (payload.updates.filterMap TlUpdate.interval) delivery.pts ∧
      ∀ id ∈ committed.result.removedTlMessageIds, ∃ u ∈ payload.updates, id ∈ u.deleted) ↔
    (foundParts committed io).length +
        (if committed.type.isEdit then committed.result.removedTlMessageIds.length else 0) = delivery.ptsCount ∧
      (committed.type.isEdit ∨ committed.result.removedTlMessageIds = []) := by
  obtain ⟨rendered, chats, hparts, hupdates⟩ := publishMessage_stored h
  obtain ⟨htiles, hdel⟩ := projectParts_tiles committed io _ _ _ _ hparts
  change Intervals.Tiles _ _ (_ + ((foundParts committed io).length : Int)) at htiles
  rw [hupdates, filterMap_append, Intervals.tiles_append]
  rcases removedUpdates_spec committed io delivery with ⟨hedit, hne, u, hu, hids, hiv⟩ | ⟨hno, hu⟩
  · rw [hu, hedit]
    simp only [filterMap_cons_some hiv, filterMap_nil, Intervals.tiles_cons, Intervals.tiles_nil, if_true, true_or,
      and_true]
    constructor
    · rintro ⟨⟨mid, hmid, hend⟩, -⟩
      have := htiles.end_unique hmid
      omega
    · intro hcount
      refine ⟨⟨_, htiles, by omega⟩, fun id hid => ⟨u, mem_append_right _ (mem_singleton.2 rfl), ?_⟩⟩
      rw [hids]
      exact hid
  · have hzero : (if committed.type.isEdit then committed.result.removedTlMessageIds.length else 0) = 0 := by
      rcases hno with hno | hno <;> simp [hno]
    rw [hu, hzero]
    simp only [filterMap_nil, Intervals.tiles_nil, append_nil]
    constructor
    · rintro ⟨⟨mid, hmid, rfl⟩, hcov⟩
      have := htiles.end_unique hmid
      refine ⟨by omega, Or.inr (eq_nil_iff_forall_not_mem.2 (fun id hid => ?_))⟩
      obtain ⟨x, hx, hxid⟩ := hcov id hid
      rw [hdel x hx] at hxid
      exact not_mem_nil hxid
    · rintro ⟨hcount, hcase⟩
      have hempty : committed.result.removedTlMessageIds = [] := by
        rcases hno with hno | hno
        · rcases hcase with hcase | hcase
          · rw [hno] at hcase; cases hcase
          · exact hcase
        · exact hno
      refine ⟨⟨_, htiles, by omega⟩, fun id hid => ?_⟩
      rw [hempty] at hid
      exact absurd hid not_mem_nil

end

/-! ## A message that lost a part -/

def partLost (type : MessageEventType) : CommittedMessageEvent where
  type := type
  conversation := { id := "group", kind := .group }
  timestamp := 1800000000
  result :=
    { message :=
        { id := 3, platformSessionId := "session", conversationId := 1, primaryPlatformMessageId := "m3",
          senderUserId := 1, text := "", content := .null, timestamp := 1800000000, outgoing := false,
          deleted := false, platformGroupId := none, metadata := [], searchText := "", searchKinds := none }
      created := false, changed := true, addedTlMessageIds := [], removedTlMessageIds := [101]
      projection :=
        [{ id := 1, platformSessionId := "session", conversationId := 1, messageId := 3, mediaId := none,
           scope := "channel:session:group", tlMessageId := 100, nativeSequence := none, nativeOrderKey := none,
           allocationVersion := some 1, groupedId := none, ordinal := 0 }] }

def quietReads : PublishReads (RawUpdates Unit) Unit Unit where
  hidesMessage := false
  displayConversation := { id := "group", kind := .group }
  stableId := fun _ => 7
  users := .ok []
  chats := []
  findProjectedByTlId := fun _ => some ()
  render := fun _ _ => .ok ((), [])
  updateToJson := id
  now := 1800000000
  retained := fun _ => true
  delivered := true
  meanwhile := fun _ t => t

def member : PlatformSession := { platformSessionId := "session", platformId := "qq", userId := "me" }

def noDeliveries : UpdateTables (RawUpdates Unit) := ⟨fun _ => none, fun _ _ => none, UpdateLog.empty 1⟩

theorem edit_of_part_lost_tiles : ∃ delivery payload,
    (_publishMessage member (partLost (.messageEdit "e1")) {} quietReads noDeliveries).2 =
      .stored delivery payload true ∧
    Intervals.Tiles (delivery.pts - delivery.ptsCount) (payload.updates.filterMap TlUpdate.interval) delivery.pts ∧
    ∀ id ∈ [(101 : Int)], ∃ u ∈ payload.updates, id ∈ u.deleted :=
  ⟨_, _, rfl, (stored_payload_tiles_iff member (partLost (.messageEdit "e1")) {} quietReads noDeliveries _ _ true rfl).2
    ⟨rfl, Or.inl rfl⟩⟩

/-- As a message two pts are reserved and one is used: (2, 3] is in no update, and part 101 is not deleted. -/
theorem message_of_part_lost_gap : ¬ ∀ (session : PlatformSession) (committed : CommittedMessageEvent)
    (options : PlatformEventDeliveryOptions) (io : PublishReads (RawUpdates Unit) Unit Unit)
    (t : UpdateTables (RawUpdates Unit)) (delivery : UpdateDelivery (RawUpdates Unit)) (payload : RawUpdates Unit)
    (published : Bool),
    (_publishMessage session committed options io t).2 = .stored delivery payload published →
    Intervals.Tiles (delivery.pts - delivery.ptsCount) (payload.updates.filterMap TlUpdate.interval) delivery.pts ∧
      ∀ id ∈ committed.result.removedTlMessageIds, ∃ u ∈ payload.updates, id ∈ u.deleted := by
  intro h
  have htiles := (h member (partLost .message) {} quietReads noDeliveries _ _ true rfl).1
  revert htiles
  decide

end Crossgram
