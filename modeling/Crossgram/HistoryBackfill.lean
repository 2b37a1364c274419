import Mathlib.Algebra.Order.Ring.Int
import Crossgram.HistoryCoverage
import Crossgram.Lib.Windows
import Crossgram.MessageRows
/-!
# HistoryBackfill — the worker that reads old history while a session is idle (packages/history-backfill/src/worker.ts)

A tick sends one request at most, for the first session that has work: the highest gap of one of its conversations, or,
when no conversation has a gap, what lies below the lowest number of one that has not come to its floor.  The states are
kept in memory and are built anew from the stored sequence numbers.
-/
namespace Crossgram

inductive BackfillMode
  | sequence
  | anchor
deriving DecidableEq

inductive BackfillFloorReason
  | start
  | empty
  | age

structure StoredMessageAnchor where
  id : String
  timestamp : Int

/-- An entry of `listConversations`; `sequence` is that of its last message. -/
structure HistorySyncConversation where
  conversationId : String
  kind : IMConversationKind
  localOnly : Bool
  sequence : Option Int

/-- The two queries of a backfill. -/
inductive IMHistoryQuery
  | beforeSequence (sequence : Int) (limit : Int)
  | before (anchor : StoredMessageAnchor) (limit : Int)

/-- `minSequence` is `Number(coverage.minSequence)`, where there is a coverage and the number is a safe integer. -/
structure HistoryBackfillPage where
  fetched : Nat
  inserted : Nat
  oldest : Option StoredMessageAnchor
  minSequence : Option Int

/-- What the worker is answered: `nativeSequences` are those of the stored message parts of a conversation, in no order
and with repetitions. -/
structure BackfillHost where
  sessions : List String
  lastActivityAt : String → Option Int
  supportsHistory : String → Bool
  supportsSequenceHistory : String → Bool
  listConversations : String → List HistorySyncConversation
  nativeSequences : String → String → List Int
  oldestStoredMessage : String → String → Option StoredMessageAnchor
  backfill : String → String → IMHistoryQuery → Except String HistoryBackfillPage

structure BackfillOptions where
  idleAfterMs : Int
  pageSize : Int
  dailyRequestCap : Nat
  maxAgeDays : Int
  conversationRefreshMs : Int
  bootstrapBatch : Nat

/-- The state of a conversation, under its `conversationId`. -/
structure ConversationState where
  mode : BackfillMode
  demoted : Bool
  coverage : SequenceCoverage
  bootstrapped : Bool
  upperSequence : Option Int
  floorReached : Bool
  floorReason : Option BackfillFloorReason
  oldest : Option StoredMessageAnchor
  requests : Nat
  fetched : Nat
  inserted : Nat
  failures : Nat
  nextAttemptAt : Int

structure SessionState where
  conversations : List (String × ConversationState)
  order : List String
  loadedAt : Option Int
  dayKey : Int
  requestsToday : Nat

structure HistoryBackfillWorker where
  enabled : Bool
  sessions : List (String × SessionState)
  cursor : Nat

inductive Work
  | gap (conversationId : String) (low high : Int)
  | floor (conversationId : String)

/-- A call of `backfill`. -/
structure BackfillRequest where
  platformSessionId : String
  conversationId : String
  query : IMHistoryQuery

def dayMs : Int := 86400000
def backoffBaseMs : Int := 30000
def backoffMaxMs : Int := 6 * 60 * 60000

/-! ## Stored sequence numbers -/

def withoutRepeats : List Int → List Int
  | a :: b :: l => if a = b then withoutRepeats (b :: l) else a :: withoutRepeats (b :: l)
  | l           => l

/-- `readNativeSequences`: the greatest rows below a bound, each once. -/
def readNativeSequences (rows : List Int) (below : Option Int) (limit : Nat) : List Int :=
  let matching := rows.filter (fun row => decide (0 < row) && below.all (fun below => decide (row < below)))
  withoutRepeats (Windows.window (fun left right => right ≤ left) (max 1 (min limit 10000)) matching)

/-- The pages that `_bootstrap` reads, one below the other. -/
def bootstrapPages (rows : List Int) (batch : Nat) : Nat → Option Int → List Int
  | 0,        _     => []
  | fuel + 1, below =>
    let page := readNativeSequences rows below batch
    if page.length < batch then page
    else match page.getLast? with
      | none      => page
      | some next =>
        if below.any (fun below => decide (below ≤ next)) then page
        else page ++ bootstrapPages rows batch fuel (some next)

namespace ConversationState

def init (mode : BackfillMode) : ConversationState :=
  { mode := mode
    demoted := false
    coverage := .empty
    bootstrapped := false
    upperSequence := none
    floorReached := false
    floorReason := none
    oldest := none
    requests := 0
    fetched := 0
    inserted := 0
    failures := 0
    nextAttemptAt := 0 }

variable (state : ConversationState)

/-- `_bootstrap`: the stored sequence numbers, with what is covered already. -/
def bootstrap (rows : List Int) (batch : Nat) : ConversationState :=
  let rebuilt := SequenceCoverage.fromSequences (bootstrapPages rows batch (rows.length + 1) none)
  { state with
    coverage := state.coverage.spans.foldl (fun coverage span => coverage.add span.start span.stop) rebuilt
    bootstrapped := true }

/-- `_floor`. -/
def floor (reason : BackfillFloorReason) : ConversationState :=
  { state with floorReached := true, floorReason := some reason }

/-- `resetConversation`. -/
def reset : ConversationState :=
  { state with failures := 0, nextAttemptAt := 0, floorReached := false, floorReason := none }

/-- `_refreshConversations` for one entry of the list. -/
def refresh (mode : BackfillMode) (conversation : HistorySyncConversation) (known : Option ConversationState) :
    ConversationState :=
  let state := match known with
    | none       => init mode
    | some state =>
      if state.mode ≠ mode ∧ state.demoted = false then init mode else state
  match conversation.sequence with
  | none       => state
  | some upper =>
    if state.upperSequence.all (fun known => decide (known < upper)) then { state with upperSequence := some upper }
    else state

end ConversationState

namespace HistoryBackfillWorker

def beyondAge (options : BackfillOptions) (timestamp now : Int) : Bool :=
  0 < options.maxAgeDays ∧ timestamp * 1000 < now - options.maxAgeDays * dayMs

/-! ## One request -/

def workConversation : Work → String
  | .gap conversationId _ _ => conversationId
  | .floor conversationId   => conversationId

/-- `_run` up to the request, for a conversation without sequence numbers. -/
def planAnchor (options : BackfillOptions) (now : Int) (oldestStored : Option StoredMessageAnchor)
    (state : ConversationState) : ConversationState × Option IMHistoryQuery :=
  match state.oldest.or oldestStored with
  | none        => (state.floor .empty, none)
  | some anchor =>
    let state := { state with oldest := some anchor }
    if beyondAge options anchor.timestamp now then (state.floor .age, none)
    else (state, some (.before anchor options.pageSize))

/-- `_run` up to the request; without a query there is nothing to ask for. -/
def plan (options : BackfillOptions) (now : Int) (oldestStored : Option StoredMessageAnchor) (work : Work)
    (state : ConversationState) : ConversationState × Option IMHistoryQuery :=
  match work with
  | .gap _ low high => (state, some (.beforeSequence high (max 1 (min options.pageSize (high - low + 1)))))
  | .floor _ => match state.mode with
    | .anchor   => planAnchor options now oldestStored state
    | .sequence => match state.coverage.min with
      | none     => planAnchor options now oldestStored { state with mode := .anchor, demoted := true }
      | some min =>
        if min ≤ 1 then (state.floor .start, none) else (state, some (.beforeSequence (min - 1) options.pageSize))

/-- `_run` when the request fails. -/
def fail (now : Int) (state : ConversationState) : ConversationState :=
  let failures := state.failures + 1
  { state with
    failures := failures
    nextAttemptAt := now + min (backoffBaseMs * 2 ^ (failures - 1)) backoffMaxMs }

def cover (work : Work) (query : IMHistoryQuery) (page : HistoryBackfillPage) (state : ConversationState) :
    ConversationState :=
  match query with
  | .beforeSequence high _ => match page.minSequence.filter (fun rawMin => decide (rawMin ≤ high)) with
    | some rawMin =>
      let state := { state with coverage := state.coverage.add rawMin high }
      if rawMin ≤ 1 then state.floor .start else state
    | none => match work with
      | .gap _ low _ => { state with coverage := state.coverage.add low high }
      | .floor _     => { state with coverage := state.coverage.add 1 high }.floor .start
  | .before anchor _ =>
    if page.fetched = 0 ∨ page.oldest.all (fun oldest => decide (oldest.id = anchor.id)) then state.floor .start
    else state

def count (page : HistoryBackfillPage) (state : ConversationState) : ConversationState :=
  let older := page.oldest.filter (fun oldest =>
    state.oldest.all (fun known => decide (oldest.timestamp < known.timestamp)))
  { state with
    failures := 0
    nextAttemptAt := 0
    fetched := state.fetched + page.fetched
    inserted := state.inserted + page.inserted
    oldest := older.or state.oldest }

/-- `_run` when a page is there. -/
def succeed (options : BackfillOptions) (now : Int) (work : Work) (query : IMHistoryQuery) (page : HistoryBackfillPage)
    (state : ConversationState) : ConversationState :=
  let state := cover work query page (count page state)
  match work with
  | .gap _ _ _ => state
  | .floor _   =>
    if state.floorReached = false ∧ state.oldest.any (fun oldest => beyondAge options oldest.timestamp now) = true then
      state.floor .age
    else state

/-- `_run` for the state of the conversation; the request, if there was one. -/
def runState (options : BackfillOptions) (host : BackfillHost) (now : Int) (session : String) (work : Work)
    (state : ConversationState) : ConversationState × Option IMHistoryQuery :=
  let conversationId := workConversation work
  match plan options now (host.oldestStoredMessage session conversationId) work state with
  | (state, none)       => (state, none)
  | (state, some query) =>
    let state := { state with requests := state.requests + 1 }
    match host.backfill session conversationId query with
    | .error _  => (fail now state, some query)
    | .ok page  => (succeed options now work query page state, some query)

/-! ## A session -/

/-- `_refreshConversations`. -/
def refreshConversations (options : BackfillOptions) (host : BackfillHost) (now : Int) (session : String)
    (s : SessionState) : SessionState :=
  if s.loadedAt.any (fun loadedAt => decide (now - loadedAt < options.conversationRefreshMs)) then s
  else
    let entries := (host.listConversations session).filter (fun conversation => !conversation.localOnly)
    entries.foldl (fun s conversation =>
      let mode := if host.supportsSequenceHistory session = true ∧ conversation.kind ≠ .direct then
        BackfillMode.sequence else .anchor
      { s with
        conversations := Maps.set s.conversations conversation.conversationId
          (ConversationState.refresh mode conversation (Maps.get s.conversations conversation.conversationId))
        order := s.order ++ [conversation.conversationId] })
      { s with loadedAt := some now, order := [] }

/-- `_bootstrap` for a conversation that was not bootstrapped. -/
def readied (options : BackfillOptions) (host : BackfillHost) (session id : String) (state : ConversationState) :
    ConversationState :=
  if state.bootstrapped then state else state.bootstrap (host.nativeSequences session id) options.bootstrapBatch

/-- The first loop of `_nextWork`: the first conversation with a gap. -/
def firstGap (options : BackfillOptions) (host : BackfillHost) (session : String) :
    List String → SessionState → SessionState × Option Work
  | [],       s => (s, none)
  | id :: ids, s => match Maps.get s.conversations id with
    | none => firstGap options host session ids s
    | some state =>
      if state.mode = .sequence then
        let state := readied options host session id state
        let s := { s with conversations := Maps.set s.conversations id state }
        match state.coverage.highestGap state.upperSequence with
        | some gap => (s, some (.gap id gap.low gap.high))
        | none     => firstGap options host session ids s
      else firstGap options host session ids s

/-- `_nextWork`. -/
def nextWork (options : BackfillOptions) (host : BackfillHost) (now : Int) (session : String) (s : SessionState) :
    SessionState × Option Work :=
  let ready := s.order.filter (fun id =>
    (Maps.get s.conversations id).any (fun state => decide (state.nextAttemptAt ≤ now)))
  match firstGap options host session ready s with
  | (s, some work) => (s, some work)
  | (s, none)      =>
    (s, (ready.find? (fun id => (Maps.get s.conversations id).any (fun state => !state.floorReached))).map .floor)

/-- `_run`. -/
def run (options : BackfillOptions) (host : BackfillHost) (now : Int) (session : String) (work : Work)
    (s : SessionState) : SessionState × Option BackfillRequest :=
  match Maps.get s.conversations (workConversation work) with
  | none       => (s, none)
  | some state =>
    let (state, query) := runState options host now session work state
    ({ s with
        conversations := Maps.set s.conversations (workConversation work) state
        requestsToday := s.requestsToday + (if query.isSome then 1 else 0) },
      query.map (fun query => ⟨session, workConversation work, query⟩))

/-! ## A tick -/

/-- `_session`: the state of a session, as of today. -/
def session (w : HistoryBackfillWorker) (id : String) (now : Int) : SessionState :=
  let today := now / dayMs
  match Maps.get w.sessions id with
  | none   => { conversations := [], order := [], loadedAt := none, dayKey := today, requestsToday := 0 }
  | some s => if s.dayKey ≠ today then { s with dayKey := today, requestsToday := 0 } else s

def mayWork (w : HistoryBackfillWorker) (options : BackfillOptions) (host : BackfillHost) (now : Int) (id : String)
    (s : SessionState) : Bool :=
  w.enabled && host.supportsHistory id && decide (s.requestsToday < options.dailyRequestCap) &&
    !(host.lastActivityAt id).any (fun lastActivity => decide (now - lastActivity < options.idleAfterMs))

def setSession (w : HistoryBackfillWorker) (id : String) (s : SessionState) : HistoryBackfillWorker :=
  { w with sessions := Maps.set w.sessions id s }

/-- The loop of `_tick` over the sessions from the cursor on, each with the cursor that its request leaves. -/
def tickSessions (options : BackfillOptions) (host : BackfillHost) (now : Int) :
    List (String × Nat) → HistoryBackfillWorker → HistoryBackfillWorker × Option BackfillRequest
  | [],                   w => (w, none)
  | (id, cursor) :: rest, w =>
    let s := w.session id now
    if w.mayWork options host now id s then
      match nextWork options host now id (refreshConversations options host now id s) with
      | (s, none)      => tickSessions options host now rest (w.setSession id s)
      | (s, some work) =>
        let (s, request) := run options host now id work s
        ({ w.setSession id s with cursor := cursor }, request)
    else tickSessions options host now rest (w.setSession id s)

/-- `_forgetInactive`. -/
def forgetInactive (w : HistoryBackfillWorker) (sessions : List String) : HistoryBackfillWorker :=
  { w with sessions := w.sessions.filter (fun e => decide (e.1 ∈ sessions)) }

def tick (options : BackfillOptions) (host : BackfillHost) (now : Int) (w : HistoryBackfillWorker) :
    HistoryBackfillWorker × Option BackfillRequest :=
  let bindings := host.sessions
  let count := bindings.length
  let turns := (List.range count).filterMap (fun offset =>
    (bindings[(w.cursor + offset) % count]?).map (fun id => (id, (w.cursor + offset + 1) % count)))
  tickSessions options host now turns (w.forgetInactive bindings)

def resetConversation (w : HistoryBackfillWorker) (session conversationId : String) : HistoryBackfillWorker :=
  match Maps.get w.sessions session with
  | none   => w
  | some s => match Maps.get s.conversations conversationId with
    | none       => w
    | some state => w.setSession session
      { s with conversations := Maps.set s.conversations conversationId state.reset }

end HistoryBackfillWorker
end Crossgram
