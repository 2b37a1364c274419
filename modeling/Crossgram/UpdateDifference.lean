import Crossgram.Lib.Programs
import Crossgram.TlUpdates
import Crossgram.UpdateTables
import Mathlib.Data.List.TakeWhile
/-!
# UpdateDifference — getDifference and getChannelDifference (packages/bridge/src/update-manager.ts)

Both are programs over the store's reads: between two of them any other call may run.  `UpdateRead` lists the reads,
with the two writes a reader makes (dropping an abandoned reservation, marking a page published) and the clock in
milliseconds.
-/
namespace Crossgram

inductive UpdateRead
  | getUpdateState (platformSessionId : String)
  | getChannelUpdateStateRow (platformSessionId : String) (channelId : Nat)
  | getUpdateDeliveriesAfter (platformSessionId : String) (pts : Int) (limit : Nat) (channelId : Option Nat)
  | getUpdateDelivery (eventKey : String)
  | discardAbandonedUpdateDelivery (eventKey : String)
  | getChangedChannelScopes (platformSessionId : String) (date : Int)
  | getChannelUpdateDeliveriesSince (platformSessionId : String) (date : Int) (limit : Nat)
  | markUpdatePublished (eventKey : String)
  | now

def UpdateRead.Answer (J : Type) : UpdateRead → Type
  | getUpdateState _                      => UpdateStateRow
  | getChannelUpdateStateRow _ _          => Option ChannelUpdateStateRow
  | getUpdateDeliveriesAfter _ _ _ _      => List (UpdateDelivery J)
  | getUpdateDelivery _                   => Option (UpdateDelivery J)
  | discardAbandonedUpdateDelivery _      => Bool
  | getChangedChannelScopes _ _           => List ChannelScopeUpdate
  | getChannelUpdateDeliveriesSince _ _ _ => List (UpdateDelivery J)
  | markUpdatePublished _                 => Unit
  | now                                   => Int

abbrev Reading (J α : Type) := Programs.Prog UpdateRead (UpdateRead.Answer J) α

def CHANNEL_MIRROR_PAGE : Nat := 100
def CHANNEL_DIFFERENCE_MAX_PENDING : Int := 1000
def PENDING_DELIVERY_WAIT_MS : Int := 1500
def PENDING_DELIVERY_POLLS : Nat := 30
def CHANNEL_POLL_TIMEOUT_SECONDS : Nat := 30
def PENDING_CHANNEL_POLL_TIMEOUT_SECONDS : Nat := 1

/-- How a stored payload is read back, and the key (`_` and `id`) a chat or user is kept under. -/
structure TlCodec (J T : Type) where
  updateFromJson : J → RawUpdates T
  peerKey : T → String

structure GetDifferenceRequest where
  pts : Int
  date : Int
  qts : Nat := 0
  ptsLimit : Option Int := none
  ptsTotalLimit : Option Int := none

/-- `channel` is `none` for anything but an `inputChannel`. -/
structure GetChannelDifferenceRequest where
  channel : Option Nat
  pts : Int
  limit : Int

structure DifferenceContent (T : Type) where
  newMessages : List T
  otherUpdates : List (TlUpdate T)
  chats : List T
  users : List T

inductive Difference (T : Type)
  | differenceEmpty (date : Int) (seq : Nat)
  | difference (content : DifferenceContent T) (state : UpdateStateRow)
  | differenceSlice (content : DifferenceContent T) (intermediateState : UpdateStateRow)

/-- `D` is what `buildTooLong` builds; `channelInvalid` is the RPC error.  A difference keeps, next to its content, the
deliveries it was built from. -/
inductive ChannelDifference (J T D : Type)
  | channelInvalid
  | tooLong (reset : D)
  | empty (final : Bool) (pts : Int) (timeout : Nat)
  | difference (final : Bool) (timeout : Nat) (pts : Int) (content : DifferenceContent T)
      (returned : List (UpdateDelivery J))

section

variable {J T D : Type}

/-! ## Calls -/

def getUpdateState (platformSessionId : String) : Reading J UpdateStateRow :=
  .perform (UpdateRead.getUpdateState platformSessionId)

def getChannelUpdateState (platformSessionId : String) (channelId : Nat) : Reading J ChannelUpdateStateRow := do
  let state : Option ChannelUpdateStateRow ← .perform (UpdateRead.getChannelUpdateStateRow platformSessionId channelId)
  match state with
  | some row => pure row
  | none     =>
    let account ← getUpdateState platformSessionId
    pure { pts := account.pts, date := account.date }

def getUpdateDeliveriesAfter (platformSessionId : String) (pts : Int) (limit : Nat) (channelId : Option Nat) :
    Reading J (List (UpdateDelivery J)) :=
  .perform (UpdateRead.getUpdateDeliveriesAfter platformSessionId pts limit channelId)

def getUpdateDelivery (eventKey : String) : Reading J (Option (UpdateDelivery J)) :=
  .perform (UpdateRead.getUpdateDelivery eventKey)

def discardAbandonedUpdateDelivery (eventKey : String) : Reading J Bool :=
  .perform (UpdateRead.discardAbandonedUpdateDelivery eventKey)

def getChangedChannelScopes (platformSessionId : String) (date : Int) : Reading J (List ChannelScopeUpdate) :=
  .perform (UpdateRead.getChangedChannelScopes platformSessionId date)

def getChannelUpdateDeliveriesSince (platformSessionId : String) (date : Int) (limit : Nat) :
    Reading J (List (UpdateDelivery J)) :=
  .perform (UpdateRead.getChannelUpdateDeliveriesSince platformSessionId date limit)

/-- The loop of `_withoutAbandonedDeliveries`: an incomplete delivery is dropped, or read again. -/
def keepUnabandoned : List (UpdateDelivery J) → Reading J (List (UpdateDelivery J))
  | []                     => pure []
  | delivery :: deliveries =>
    match delivery.payload with
    | some _ => do
      let kept ← keepUnabandoned deliveries
      pure (delivery :: kept)
    | none => do
      let discarded ← discardAbandonedUpdateDelivery delivery.eventKey
      if discarded then keepUnabandoned deliveries
      else do
        let settled ← getUpdateDelivery delivery.eventKey
        let kept ← keepUnabandoned deliveries
        pure (settled.toList ++ kept)

def _withoutAbandonedDeliveries (deliveries : List (UpdateDelivery J)) : Reading J (List (UpdateDelivery J)) :=
  if deliveries.any (fun delivery => delivery.payload.isNone) then keepUnabandoned deliveries else pure deliveries

/-- `_withoutAbandonedDeliveries(await getUpdateDeliveriesAfter(…))`. -/
def readUnabandoned (platformSessionId : String) (pts : Int) (limit : Nat) (channelId : Option Nat) :
    Reading J (List (UpdateDelivery J)) := do
  let window ← getUpdateDeliveriesAfter platformSessionId pts limit channelId
  _withoutAbandonedDeliveries window

def pollPendingDelivery (eventKey : String) (deadline : Int) : Nat → Reading J Unit
  | 0          => pure ()
  | polls + 1  => do
    let now : Int ← .perform UpdateRead.now
    if now < deadline then do
      let current ← getUpdateDelivery eventKey
      match current with
      | none          => pure ()
      | some delivery =>
        if delivery.payload.isSome then pure () else pollPendingDelivery eventKey deadline polls
    else pure ()

def _awaitPendingDelivery (delivery : UpdateDelivery J) : Reading J Unit := do
  let now : Int ← .perform UpdateRead.now
  pollPendingDelivery delivery.eventKey (now + PENDING_DELIVERY_WAIT_MS) PENDING_DELIVERY_POLLS

def markPublished : List (UpdateDelivery J) → Reading J Unit
  | []                     => pure ()
  | delivery :: deliveries => do
    let _ : Unit ← .perform (UpdateRead.markUpdatePublished delivery.eventKey)
    markPublished deliveries

/-! ## Pages and content -/

def readyDeliveries (deliveries : List (UpdateDelivery J)) : List (UpdateDelivery J) :=
  deliveries.takeWhile (fun delivery => delivery.payload.isSome)

/-- `slice(0, Math.max(1, Math.min(limit, 100)))`. -/
def pageOf (limit : Int) (deliveries : List (UpdateDelivery J)) : List (UpdateDelivery J) :=
  (readyDeliveries deliveries).take (max 1 (min limit 100)).toNat

theorem pageOf_prefix (limit : Int) (ds : List (UpdateDelivery J)) : ∃ rest, ds = pageOf limit ds ++ rest := by
  refine ⟨(readyDeliveries ds).drop (max 1 (min limit 100)).toNat ++
    ds.dropWhile (fun delivery => delivery.payload.isSome), ?_⟩
  rw [pageOf, ← List.append_assoc, List.take_append_drop]
  exact List.takeWhile_append_dropWhile.symm

theorem mem_pageOf {limit : Int} {ds : List (UpdateDelivery J)} {d : UpdateDelivery J} (h : d ∈ pageOf limit ds) :
    d ∈ ds ∧ d.payload.isSome := by
  have hready : d ∈ ds.takeWhile (fun delivery => delivery.payload.isSome) := List.mem_of_mem_take h
  exact ⟨(List.takeWhile_sublist _).subset hready, by simpa using List.mem_takeWhile_imp hready⟩

/-- `map.set(key, peer)`: a peer under a key that is there takes its place. -/
def setPeer (codec : TlCodec J T) (peers : List T) (peer : T) : List T :=
  if peers.any (fun p => codec.peerKey p = codec.peerKey peer) then
    peers.map (fun p => if codec.peerKey p = codec.peerKey peer then peer else p)
  else peers ++ [peer]

def addPeers (codec : TlCodec J T) (content : DifferenceContent T) (payload : RawUpdates T) : DifferenceContent T :=
  { content with
    chats := payload.chats.foldl (setPeer codec) content.chats
    users := payload.users.foldl (setPeer codec) content.users }

def addDelivery (codec : TlCodec J T) (content : DifferenceContent T) (json : J) : DifferenceContent T :=
  let payload := codec.updateFromJson json
  addPeers codec
    { content with
      newMessages := content.newMessages ++ payload.updates.filterMap TlUpdate.newMessage
      otherUpdates := content.otherUpdates ++ payload.updates.filter (fun u => u.newMessage.isNone) } payload

def addChannelDelivery (codec : TlCodec J T) (content : DifferenceContent T) (json : J) : DifferenceContent T :=
  let payload := codec.updateFromJson json
  addPeers codec
    { content with
      newMessages := content.newMessages ++ payload.updates.filterMap TlUpdate.newChannelMessage
      otherUpdates := content.otherUpdates ++ payload.updates.filter (fun u => u.newChannelMessage.isNone) } payload

def mergeChannelPayload (codec : TlCodec J T) (content : DifferenceContent T) (json : J) : DifferenceContent T :=
  let payload := codec.updateFromJson json
  addPeers codec
    { content with newMessages := content.newMessages ++ payload.updates.filterMap TlUpdate.newChannelMessage } payload

def emptyContent : DifferenceContent T := ⟨[], [], [], []⟩

def payloads (page : List (UpdateDelivery J)) : List J := page.filterMap (fun delivery => delivery.payload)

def channelScopeId : UpdateScope → Option Nat
  | .account           => none
  | .channel channelId => some channelId

/-- `changedChannels.set(channelId, Math.max(changedChannels.get(channelId) ?? 0, scope.pts))`. -/
def setChangedChannel (changed : List (Nat × Int)) (scope : ChannelScopeUpdate) : List (Nat × Int) :=
  match channelScopeId scope.scope with
  | none           => changed
  | some channelId =>
    if changed.any (fun c => c.1 = channelId) then
      changed.map (fun c => if c.1 = channelId then (channelId, max c.2 scope.pts) else c)
    else changed ++ [(channelId, max 0 scope.pts)]

def tooLongUpdates (scopes : List ChannelScopeUpdate) : List (TlUpdate T) :=
  (scopes.foldl setChangedChannel []).map (fun c => .updateChannelTooLong c.1 c.2)

def mirrorNewest (codec : TlCodec J T) (platformSessionId : String) (mirrored : List UpdateScope) :
    List ChannelScopeUpdate → DifferenceContent T → Reading J (DifferenceContent T)
  | [],              content => pure content
  | scope :: scopes, content =>
    if mirrored.contains scope.scope then mirrorNewest codec platformSessionId mirrored scopes content
    else match channelScopeId scope.scope with
      | none           => mirrorNewest codec platformSessionId mirrored scopes content
      | some channelId => do
        let newest ← getUpdateDeliveriesAfter platformSessionId (max 0 (scope.pts - 1)) 1 (some channelId)
        mirrorNewest codec platformSessionId mirrored scopes
          ((payloads (newest.take 1)).foldl (mergeChannelPayload codec) content)

def differenceOf (request : GetDifferenceRequest) (state : UpdateStateRow) (deliveries page : List (UpdateDelivery J))
    (content : DifferenceContent T) : Difference T :=
  match page.getLast?, deliveries with
  | none, pending :: _ =>
    .differenceSlice content { pts := request.pts, qts := request.qts, date := request.date, seq := pending.seq - 1 }
  | some last, _ =>
    if page.length < deliveries.length then
      .differenceSlice content { pts := last.pts, qts := state.qts, date := last.date, seq := last.seq }
    else .difference content state
  | none, [] => .difference content state

theorem differenceOf_cut (request : GetDifferenceRequest) (state : UpdateStateRow)
    {deliveries page : List (UpdateDelivery J)} (h : page.length < deliveries.length) (content : DifferenceContent T) :
    ∃ intermediateState, differenceOf request state deliveries page content =
        .differenceSlice content intermediateState ∧
      intermediateState.pts = (page.getLast?.map (fun last => last.pts)).getD request.pts ∧
      intermediateState.date = (page.getLast?.map (fun last => last.date)).getD request.date := by
  unfold differenceOf
  split
  · rename_i hlast
    rw [hlast]
    exact ⟨_, rfl, rfl, rfl⟩
  · rename_i last _ hlast
    rw [if_pos h, hlast]
    exact ⟨_, rfl, rfl, rfl⟩
  · cases h

theorem differenceOf_whole {request : GetDifferenceRequest} {state : UpdateStateRow}
    {deliveries page : List (UpdateDelivery J)} (h : ¬ page.length < deliveries.length) (content : DifferenceContent T) :
    differenceOf request state deliveries page content = .difference content state := by
  unfold differenceOf
  split
  · rename_i hlast
    rw [List.getLast?_eq_none_iff.1 hlast] at h
    exact absurd (Nat.zero_lt_succ _) h
  · rw [if_neg h]
  · rfl

def assembleDifference (codec : TlCodec J T) (platformSessionId : String) (request : GetDifferenceRequest)
    (state : UpdateStateRow) (deliveries : List (UpdateDelivery J)) (channelScopes : List ChannelScopeUpdate) :
    Reading J (Difference T) := do
  let page := pageOf ((request.ptsLimit <|> request.ptsTotalLimit).getD 100) deliveries
  let own := (payloads page).foldl (addDelivery codec) emptyContent
  let since ← getChannelUpdateDeliveriesSince platformSessionId request.date CHANNEL_MIRROR_PAGE
  let mirrored := since.filter (fun delivery => delivery.payload.isSome && 0 < delivery.ptsCount)
  let content ← mirrorNewest codec platformSessionId (mirrored.map (fun delivery => delivery.scope)) channelScopes
    ((payloads mirrored).foldl (mergeChannelPayload codec) own)
  markPublished page
  pure (differenceOf request state deliveries page
    { content with otherUpdates := content.otherUpdates ++ tooLongUpdates channelScopes })

/-- The rows past the client's pts, the abandoned ones dropped; an incomplete head is waited for, once. -/
def readDeliveries (platformSessionId : String) (request : GetDifferenceRequest) :
    Reading J (List (UpdateDelivery J)) := do
  let deliveries ← readUnabandoned platformSessionId request.pts 101 none
  match deliveries with
  | []        => pure []
  | head :: _ =>
    if head.payload.isSome then pure deliveries
    else do
      _awaitPendingDelivery head
      readUnabandoned platformSessionId request.pts 101 none

def getDifference (codec : TlCodec J T) (platformSessionId : String) (request : GetDifferenceRequest) :
    Reading J (Difference T) := do
  let state ← getUpdateState platformSessionId
  let deliveries ← readDeliveries platformSessionId request
  let channelScopes ← getChangedChannelScopes platformSessionId request.date
  if deliveries.isEmpty && channelScopes.isEmpty && request.pts == state.pts then
    pure (.differenceEmpty state.date state.seq)
  else assembleDifference codec platformSessionId request state deliveries channelScopes

/-! ## Channels -/

inductive ChannelResetReason
  | clientAhead | pruned | backlog

/-- The gap loop: the pts the counted deliveries lead to from `cursor`, `none` at a gap. -/
def gapCursor : Int → List (UpdateDelivery J) → Option Int
  | cursor, []                     => some cursor
  | cursor, delivery :: deliveries =>
    if delivery.ptsCount = 0 then gapCursor cursor deliveries
    else if delivery.pts - delivery.ptsCount = cursor then gapCursor delivery.pts deliveries
    else none

def _channelResetReason (pts latestPts : Int) (deliveries : List (UpdateDelivery J)) : Option ChannelResetReason :=
  if latestPts < pts then some .clientAhead
  else if pts = latestPts then none
  else if (gapCursor pts deliveries).isNone then some .pruned
  else if deliveries.isEmpty then some .pruned
  else if CHANNEL_DIFFERENCE_MAX_PENDING < latestPts - pts then some .backlog
  else none

def channelPage (codec : TlCodec J T) (request : GetChannelDifferenceRequest) (latestPts : Int)
    (deliveries : List (UpdateDelivery J)) : Reading J (ChannelDifference J T D) :=
  if deliveries.isEmpty then pure (.empty true latestPts CHANNEL_POLL_TIMEOUT_SECONDS)
  else
    let ready := readyDeliveries deliveries
    let page := pageOf request.limit deliveries
    match page.getLast? with
    | none      => pure (.empty true request.pts PENDING_CHANNEL_POLL_TIMEOUT_SECONDS)
    | some last => do
      let content := (payloads page).foldl (addChannelDelivery codec) emptyContent
      markPublished page
      pure (.difference (page.length == ready.length)
        (if deliveries.all (fun delivery => delivery.payload.isSome) then CHANNEL_POLL_TIMEOUT_SECONDS
          else PENDING_CHANNEL_POLL_TIMEOUT_SECONDS) last.pts content page)

def getChannelDifference (codec : TlCodec J T) (platformSessionId : String) (request : GetChannelDifferenceRequest)
    (buildTooLong : Nat → Int → Option D) : Reading J (ChannelDifference J T D) :=
  match request.channel with
  | none           => pure .channelInvalid
  | some channelId => do
    let state ← getChannelUpdateState platformSessionId channelId
    let deliveries ← readUnabandoned platformSessionId request.pts 101 (some channelId)
    match _channelResetReason request.pts state.pts deliveries, buildTooLong channelId state.pts with
    | some _, some reset => pure (.tooLong reset)
    | _, _               => channelPage codec request state.pts deliveries

end

end Crossgram
