import Crossgram.HistoryBackfill
/-!
# BackfillRejections — a tick of the worker while calls of its host reject (packages/history-backfill/src/worker.ts)

Only the upstream request of `_run` is caught.  The listing, the reads of stored sequence numbers and the read of the oldest
stored message are awaited in the loops over the sessions and their conversations, so where one of them rejects the tick
rejects with it.  What the undisturbed tick computes is `HistoryBackfillWorker.tick`.
-/
namespace Crossgram
namespace RejectingBackfill

open List HistoryBackfillWorker

/-- The calls of the host that nothing catches. -/
inductive HostCall
  | listConversations (platformSessionId : String)
  | readStoredSequences (platformSessionId conversationId : String) (below : Option Int)
  | oldestStoredMessage (platformSessionId conversationId : String)
deriving DecidableEq

/-- How a tick ends: without work, with a `_run` and its request, or rejected. -/
inductive TickEnd
  | idle
  | ran (request : Option BackfillRequest)
  | rejected (call : HostCall)

def TickEnd.request : TickEnd → Option BackfillRequest
  | .ran request => request
  | _            => none

variable (options : BackfillOptions) (host : BackfillHost) (rejects : HostCall → Bool) (now : Int)

def fresh (s : SessionState) : Bool := s.loadedAt.any (fun loadedAt => decide (now - loadedAt < options.conversationRefreshMs))

/-- `_refreshConversations`. -/
def refreshConversations (session : String) (s : SessionState) : Except HostCall SessionState :=
  if fresh options now s then .ok s
  else if rejects (.listConversations session) then .error (.listConversations session)
  else .ok (HistoryBackfillWorker.refreshConversations options host now session s)

/-- The loop of `_bootstrap`. -/
def readSequences (session id : String) (rows : List Int) (batch : Nat) : Nat → Option Int → Except HostCall (List Int)
  | 0,        _     => .ok []
  | fuel + 1, below =>
    if rejects (.readStoredSequences session id below) then .error (.readStoredSequences session id below)
    else
      let page := readNativeSequences rows below batch
      if page.length < batch then .ok page
      else match page.getLast? with
        | none      => .ok page
        | some next =>
          if below.any (fun below => decide (below ≤ next)) then .ok page
          else match readSequences session id rows batch fuel (some next) with
            | .error call => .error call
            | .ok rest    => .ok (page ++ rest)

/-- The end of `_bootstrap`. -/
def rebuild (state : ConversationState) (sequences : List Int) : ConversationState :=
  { state with
    coverage := state.coverage.spans.foldl (fun coverage span => coverage.add span.start span.stop)
      (SequenceCoverage.fromSequences sequences)
    bootstrapped := true }

/-- `_bootstrap` for a conversation that was not bootstrapped. -/
def readied (session id : String) (state : ConversationState) : Except HostCall ConversationState :=
  if state.bootstrapped then .ok state
  else match readSequences rejects session id (host.nativeSequences session id) options.bootstrapBatch
      ((host.nativeSequences session id).length + 1) none with
    | .error call    => .error call
    | .ok sequences  => .ok (rebuild state sequences)

/-- The first loop of `_nextWork`; what was bootstrapped before a rejection stays so. -/
def firstGap (session : String) : List String → SessionState → SessionState × Except HostCall (Option Work)
  | [],        s => (s, .ok none)
  | id :: ids, s => match Maps.get s.conversations id with
    | none => firstGap session ids s
    | some state =>
      if state.mode = .sequence then
        match readied options host rejects session id state with
        | .error call => (s, .error call)
        | .ok state   =>
          let s := { s with conversations := Maps.set s.conversations id state }
          match state.coverage.highestGap state.upperSequence with
          | some gap => (s, .ok (some (.gap id gap.low gap.high)))
          | none     => firstGap session ids s
      else firstGap session ids s

def ready (s : SessionState) : List String :=
  s.order.filter (fun id => (Maps.get s.conversations id).any (fun state => decide (state.nextAttemptAt ≤ now)))

/-- The second loop of `_nextWork`. -/
def firstOpen (ids : List String) (s : SessionState) : Option Work :=
  (ids.find? (fun id => (Maps.get s.conversations id).any (fun state => !state.floorReached))).map .floor

/-- `_nextWork`. -/
def nextWork (session : String) (s : SessionState) : SessionState × Except HostCall (Option Work) :=
  match firstGap options host rejects session (ready now s) s with
  | (s', .error call)     => (s', .error call)
  | (s', .ok (some work)) => (s', .ok (some work))
  | (s', .ok none)        => (s', .ok (firstOpen (ready now s) s'))

/-- `_run` reads the oldest stored message. -/
def asksOldest (work : Work) (state : ConversationState) : Bool :=
  match work with
  | .gap _ _ _ => false
  | .floor _   => state.oldest.isNone && (state.mode = .anchor || state.coverage.min.isNone)

/-- `_run` for a conversation whose oldest stored message cannot be read. -/
def demoted (state : ConversationState) : ConversationState :=
  if state.mode = .sequence then { state with mode := .anchor, demoted := true } else state

/-- `_run`. -/
def run (session : String) (work : Work) (s : SessionState) : SessionState × TickEnd :=
  match Maps.get s.conversations (workConversation work) with
  | none       => (s, .ran none)
  | some state =>
    if asksOldest work state && rejects (.oldestStoredMessage session (workConversation work)) then
      ({ s with conversations := Maps.set s.conversations (workConversation work) (demoted state) },
        .rejected (.oldestStoredMessage session (workConversation work)))
    else
      let (s, request) := HistoryBackfillWorker.run options host now session work s
      (s, .ran request)

/-- The loop of `_tick` over the sessions from the cursor on, each with the cursor that its work leaves. -/
def tickSessions : List (String × Nat) → HistoryBackfillWorker → HistoryBackfillWorker × TickEnd
  | [],                   w => (w, .idle)
  | (id, cursor) :: rest, w =>
    let s := w.session id now
    if w.mayWork options host now id s then
      match refreshConversations options host rejects now id s with
      | .error call => (w.setSession id s, .rejected call)
      | .ok s       => match nextWork options host rejects now id s with
        | (s, .error call)     => (w.setSession id s, .rejected call)
        | (s, .ok none)        => tickSessions rest (w.setSession id s)
        | (s, .ok (some work)) =>
          let (s, stop) := run options host rejects now id work s
          ({ w.setSession id s with cursor := cursor }, stop)
    else tickSessions rest (w.setSession id s)

def turns (w : HistoryBackfillWorker) : List (String × Nat) :=
  (List.range host.sessions.length).filterMap (fun offset =>
    (host.sessions[(w.cursor + offset) % host.sessions.length]?).map
      (fun id => (id, (w.cursor + offset + 1) % host.sessions.length)))

/-- `_tick`. -/
def tick (w : HistoryBackfillWorker) : HistoryBackfillWorker × TickEnd :=
  tickSessions options host rejects now (turns host w) (w.forgetInactive host.sessions)

/-! ## The calls -/

/-- The reads of `_bootstrap`. -/
def sequenceReads (rows : List Int) (batch : Nat) : Nat → Option Int → List (Option Int)
  | 0,        _     => []
  | fuel + 1, below =>
    let page := readNativeSequences rows below batch
    below :: (if page.length < batch then []
      else match page.getLast? with
        | none      => []
        | some next =>
          if below.any (fun below => decide (below ≤ next)) then [] else sequenceReads rows batch fuel (some next))

def reads (session id : String) (state : ConversationState) : List HostCall :=
  if state.bootstrapped then []
  else (sequenceReads (host.nativeSequences session id) options.bootstrapBatch
    ((host.nativeSequences session id).length + 1) none).map (.readStoredSequences session id)

/-- The reads of the first loop of `_nextWork`, up to the first gap. -/
def gapReads (session : String) : List String → SessionState → List HostCall
  | [],        _ => []
  | id :: ids, s => match Maps.get s.conversations id with
    | none => gapReads session ids s
    | some state =>
      if state.mode = .sequence then
        reads options host session id state ++
          (let state := HistoryBackfillWorker.readied options host session id state
          match state.coverage.highestGap state.upperSequence with
          | some _ => []
          | none   => gapReads session ids { s with conversations := Maps.set s.conversations id state })
      else gapReads session ids s

def refreshed (session : String) (s : SessionState) : SessionState :=
  HistoryBackfillWorker.refreshConversations options host now session s

def turnCalls (session : String) (s : SessionState) : List HostCall :=
  (if fresh options now s then [] else [.listConversations session]) ++
    gapReads options host session (ready now (refreshed options host now session s)) (refreshed options host now session s)

/-! ### One call rejects or none does -/

variable {options host rejects now} {session id : String} {s : SessionState} {w : HistoryBackfillWorker}

variable (rejects session id) in
theorem readSequences_or (rows : List Int) (batch : Nat) : ∀ (fuel : Nat) (below : Option Int),
    (readSequences rejects session id rows batch fuel below = .ok (bootstrapPages rows batch fuel below) ∧
        ∀ b ∈ sequenceReads rows batch fuel below, rejects (.readStoredSequences session id b) = false) ∨
      ∃ b ∈ sequenceReads rows batch fuel below, rejects (.readStoredSequences session id b) = true ∧
        readSequences rejects session id rows batch fuel below = .error (.readStoredSequences session id b)
  | 0,        below => .inl ⟨rfl, fun _ hb => (by cases hb)⟩
  | fuel + 1, below => by
    unfold readSequences bootstrapPages sequenceReads
    dsimp only
    by_cases hrejects : rejects (.readStoredSequences session id below) = true
    · rw [if_pos hrejects]
      exact .inr ⟨below, mem_cons_self, hrejects, rfl⟩
    rw [if_neg hrejects]
    have hfirst : rejects (.readStoredSequences session id below) = false := Bool.eq_false_of_not_eq_true hrejects
    have halone : ∀ b ∈ [below], rejects (.readStoredSequences session id b) = false := by
      intro b hb
      rw [mem_singleton.1 hb]
      exact hfirst
    by_cases hshort : (readNativeSequences rows below batch).length < batch
    · rw [if_pos hshort, if_pos hshort, if_pos hshort]
      exact .inl ⟨rfl, halone⟩
    rw [if_neg hshort, if_neg hshort, if_neg hshort]
    cases hlast : (readNativeSequences rows below batch).getLast? with
    | none => exact .inl ⟨rfl, halone⟩
    | some next =>
      dsimp only
      by_cases hstuck : below.any (fun below => decide (below ≤ next)) = true
      · rw [if_pos hstuck, if_pos hstuck, if_pos hstuck]
        exact .inl ⟨rfl, halone⟩
      rw [if_neg hstuck, if_neg hstuck, if_neg hstuck]
      rcases readSequences_or rows batch fuel (some next) with ⟨hok, hnone⟩ | ⟨b, hb, hreject, herror⟩
      · rw [hok]
        refine .inl ⟨rfl, fun b hb => ?_⟩
        rcases mem_cons.1 hb with rfl | hb
        · exact hfirst
        · exact hnone b hb
      · rw [herror]
        exact .inr ⟨b, mem_cons_of_mem _ hb, hreject, rfl⟩

variable (options host rejects) in
theorem readied_or (session id : String) (state : ConversationState) :
    (readied options host rejects session id state = .ok (HistoryBackfillWorker.readied options host session id state) ∧
        ∀ call ∈ reads options host session id state, rejects call = false) ∨
      ∃ call ∈ reads options host session id state, rejects call = true ∧
        readied options host rejects session id state = .error call := by
  unfold readied HistoryBackfillWorker.readied reads
  by_cases hready : state.bootstrapped = true
  · rw [if_pos hready, if_pos hready, if_pos hready]
    exact .inl ⟨rfl, fun _ hc => (by cases hc)⟩
  rw [if_neg hready, if_neg hready, if_neg hready]
  rcases readSequences_or rejects session id (host.nativeSequences session id)
    options.bootstrapBatch ((host.nativeSequences session id).length + 1) none with ⟨hok, hnone⟩ | ⟨b, hb, hreject, herror⟩
  · rw [hok]
    refine .inl ⟨rfl, fun call hcall => ?_⟩
    obtain ⟨b, hb, rfl⟩ := mem_map.1 hcall
    exact hnone b hb
  · rw [herror]
    exact .inr ⟨_, mem_map_of_mem hb, hreject, rfl⟩

variable (options host rejects) in
theorem firstGap_or (session : String) : ∀ (ids : List String) (s : SessionState),
    (firstGap options host rejects session ids s =
          ((HistoryBackfillWorker.firstGap options host session ids s).1,
            .ok (HistoryBackfillWorker.firstGap options host session ids s).2) ∧
        ∀ call ∈ gapReads options host session ids s, rejects call = false) ∨
      ∃ call ∈ gapReads options host session ids s, rejects call = true ∧
        (firstGap options host rejects session ids s).2 = .error call
  | [],        s => .inl ⟨rfl, fun _ hc => (by cases hc)⟩
  | id :: ids, s => by
    unfold firstGap HistoryBackfillWorker.firstGap gapReads
    cases hget : Maps.get s.conversations id with
    | none => exact firstGap_or session ids s
    | some state =>
      dsimp only
      by_cases hmode : state.mode = .sequence
      · rw [if_pos hmode, if_pos hmode, if_pos hmode]
        rcases readied_or options host rejects session id state with ⟨hok, hnone⟩ | ⟨call, hcall, hreject, herror⟩
        · rw [hok]
          dsimp only
          generalize HistoryBackfillWorker.readied options host session id state = state'
          cases hgap : state'.coverage.highestGap state'.upperSequence with
          | some gap =>
            dsimp only
            rw [append_nil]
            exact .inl ⟨rfl, hnone⟩
          | none =>
            dsimp only
            rcases firstGap_or session ids { s with conversations := Maps.set s.conversations id state' } with
              ⟨hrest, hothers⟩ | ⟨call, hcall, hreject, herror⟩
            · refine .inl ⟨hrest, fun call hcall => ?_⟩
              rcases mem_append.1 hcall with hcall | hcall
              · exact hnone call hcall
              · exact hothers call hcall
            · exact .inr ⟨call, mem_append_right _ hcall, hreject, herror⟩
        · rw [herror]
          exact .inr ⟨call, mem_append_left _ hcall, hreject, rfl⟩
      · rw [if_neg hmode, if_neg hmode, if_neg hmode]
        exact firstGap_or session ids s

def thenOpen (ids : List String) : SessionState × Option Work → SessionState × Option Work
  | (s, some work) => (s, some work)
  | (s, none)      => (s, firstOpen ids s)

theorem nextWork_eq (session : String) (s : SessionState) :
    HistoryBackfillWorker.nextWork options host now session s =
      thenOpen (ready now s) (HistoryBackfillWorker.firstGap options host session (ready now s) s) := rfl

variable (options host rejects now) in
theorem nextWork_or (session : String) (s : SessionState) :
    (nextWork options host rejects now session s =
          ((HistoryBackfillWorker.nextWork options host now session s).1,
            .ok (HistoryBackfillWorker.nextWork options host now session s).2) ∧
        ∀ call ∈ gapReads options host session (ready now s) s, rejects call = false) ∨
      ∃ call ∈ gapReads options host session (ready now s) s, rejects call = true ∧
        (nextWork options host rejects now session s).2 = .error call := by
  rcases firstGap_or options host rejects session (ready now s) s with
    ⟨hok, hnone⟩ | ⟨call, hcall, hreject, herror⟩
  · refine .inl ⟨?_, hnone⟩
    rw [nextWork_eq]
    unfold nextWork
    rw [hok]
    cases HistoryBackfillWorker.firstGap options host session (ready now s) s with
    | mk s' found => cases found <;> rfl
  · refine .inr ⟨call, hcall, hreject, ?_⟩
    unfold nextWork
    cases hgap : firstGap options host rejects session (ready now s) s with
    | mk s' found =>
      rw [hgap] at herror
      dsimp only at herror
      rw [herror]

variable (options host rejects now) in
/-- **A turn up to its work**: all calls are answered and the work is that of an undisturbed turn, or one rejects. -/
theorem turn_or (session : String) (s : SessionState) :
    ((∀ call ∈ turnCalls options host now session s, rejects call = false) ∧
        refreshConversations options host rejects now session s = .ok (refreshed options host now session s) ∧
        nextWork options host rejects now session (refreshed options host now session s) =
          ((HistoryBackfillWorker.nextWork options host now session (refreshed options host now session s)).1,
            .ok (HistoryBackfillWorker.nextWork options host now session (refreshed options host now session s)).2)) ∨
      ∃ call ∈ turnCalls options host now session s, rejects call = true ∧
        (refreshConversations options host rejects now session s = .error call ∨
          refreshConversations options host rejects now session s = .ok (refreshed options host now session s) ∧
            (nextWork options host rejects now session (refreshed options host now session s)).2 = .error call) := by
  have hlists : (refreshConversations options host rejects now session s = .ok (refreshed options host now session s) ∧
        ∀ call ∈ (if fresh options now s then [] else [HostCall.listConversations session]), rejects call = false) ∨
      ∃ call ∈ (if fresh options now s then [] else [HostCall.listConversations session]), rejects call = true ∧
        refreshConversations options host rejects now session s = .error call := by
    unfold refreshConversations
    by_cases hfresh : fresh options now s = true
    · rw [if_pos hfresh, if_pos hfresh]
      refine .inl ⟨?_, fun _ hc => (by cases hc)⟩
      unfold refreshed HistoryBackfillWorker.refreshConversations
      rw [if_pos (show s.loadedAt.any _ = true from hfresh)]
    · rw [if_neg hfresh, if_neg hfresh]
      by_cases hrejects : rejects (.listConversations session) = true
      · rw [if_pos hrejects]
        exact .inr ⟨_, mem_cons_self, hrejects, rfl⟩
      · rw [if_neg hrejects]
        refine .inl ⟨rfl, fun call hcall => ?_⟩
        rw [mem_singleton.1 hcall]
        exact Bool.eq_false_of_not_eq_true hrejects
  rcases hlists with ⟨hok, hlist⟩ | ⟨call, hcall, hreject, herror⟩
  · rcases nextWork_or options host rejects now session
      (refreshed options host now session s) with ⟨hwork, hreads⟩ | ⟨call, hcall, hreject, herror⟩
    · refine .inl ⟨fun call hcall => ?_, hok, hwork⟩
      rcases mem_append.1 hcall with hcall | hcall
      · exact hlist call hcall
      · exact hreads call hcall
    · exact .inr ⟨call, mem_append_right _ hcall, hreject, .inr ⟨hok, herror⟩⟩
  · exact .inr ⟨call, mem_append_left _ hcall, hreject, .inl herror⟩

/-! ## The request -/

variable (options host rejects now) in
def Asks (session : String) (work : Work) (s : SessionState) : Prop :=
  ∃ state, Maps.get s.conversations (workConversation work) = some state ∧
    (asksOldest work state = true → rejects (.oldestStoredMessage session (workConversation work)) = false) ∧
    (plan options now (host.oldestStoredMessage session (workConversation work)) work state).2.isSome = true

theorem runState_request (session : String) (work : Work) (state : ConversationState) :
    (runState options host now session work state).2 =
      (plan options now (host.oldestStoredMessage session (workConversation work)) work state).2 := by
  unfold runState
  dsimp only
  cases plan options now (host.oldestStoredMessage session (workConversation work)) work state with
  | mk state' query =>
    cases query with
    | none => rfl
    | some query =>
      dsimp only
      cases host.backfill session (workConversation work) query <;> rfl

variable (options host rejects now) in
theorem run_request_iff (session : String) (work : Work) (s : SessionState) :
    (run options host rejects now session work s).2.request.isSome = true ↔
      Asks options host rejects now session work s := by
  unfold run Asks
  cases hget : Maps.get s.conversations (workConversation work) with
  | none =>
    refine ⟨fun h => (by cases h), ?_⟩
    rintro ⟨state, hstate, -⟩
    cases hstate
  | some state =>
    dsimp only
    by_cases hreject : (asksOldest work state && rejects (.oldestStoredMessage session (workConversation work))) = true
    · rw [if_pos hreject]
      rw [Bool.and_eq_true] at hreject
      refine ⟨fun h => (by cases h), ?_⟩
      rintro ⟨state', hstate, hread, -⟩
      cases hstate
      rw [hread hreject.1] at hreject
      cases hreject.2
    · rw [if_neg hreject]
      rw [Bool.and_eq_true, not_and, Bool.not_eq_true] at hreject
      have hrequest : (HistoryBackfillWorker.run options host now session work s).2.isSome =
          (plan options now (host.oldestStoredMessage session (workConversation work)) work state).2.isSome := by
        unfold HistoryBackfillWorker.run
        rw [hget]
        dsimp only
        rw [Option.isSome_map, runState_request]
      show (HistoryBackfillWorker.run options host now session work s).2.isSome = true ↔ _
      rw [hrequest]
      constructor
      · exact fun h => ⟨state, rfl, hreject, h⟩
      · rintro ⟨state', hstate, -, h⟩
        cases hstate
        exact h

variable (options host rejects now) in
/-- No call is rejected in any turn up to the one whose session has work, and this work leads to a request. -/
def Undisturbed : List (String × Nat) → HistoryBackfillWorker → Prop
  | [],              _ => True
  | (id, _) :: rest, w =>
    let s := w.session id now
    if w.mayWork options host now id s then
      (∀ call ∈ turnCalls options host now id s, rejects call = false) ∧
        match HistoryBackfillWorker.nextWork options host now id (refreshed options host now id s) with
        | (s, none)      => Undisturbed rest (w.setSession id s)
        | (s, some work) => Asks options host rejects now id work s
    else Undisturbed rest (w.setSession id s)

variable (options host rejects now) in
structure HasWork (w : HistoryBackfillWorker) (session conversationId : String) : Prop where
  active : session ∈ host.sessions
  may : w.mayWork options host now session (w.session session now) = true
  ready : conversationId ∈ ready now (refreshed options host now session (w.session session now))
  work : ∃ state, Maps.get (refreshed options host now session (w.session session now)).conversations conversationId =
    some state ∧ (state.floorReached = false ∨ state.mode = .sequence ∧
      ((HistoryBackfillWorker.readied options host session conversationId state).coverage.highestGap
        (HistoryBackfillWorker.readied options host session conversationId state).upperSequence).isSome = true)
  lists : rejects (.listConversations session) = false
  reads : ∀ below, rejects (.readStoredSequences session conversationId below) = false
  oldest : rejects (.oldestStoredMessage session conversationId) = false
  backfills : ∀ query, (host.backfill session conversationId query).isOk = true

/-! ## The work of a session -/

theorem readied_same (session id : String) (state : ConversationState) :
    (HistoryBackfillWorker.readied options host session id state).floorReached = state.floorReached ∧
      (HistoryBackfillWorker.readied options host session id state).mode = state.mode := by
  unfold HistoryBackfillWorker.readied
  split <;> exact ⟨rfl, rfl⟩

variable (options host) in
theorem firstGap_none (session : String) : ∀ (ids : List String) (s : SessionState),
    (HistoryBackfillWorker.firstGap options host session ids s).2 = none → ∀ id state,
    Maps.get s.conversations id = some state →
    (∃ state', Maps.get (HistoryBackfillWorker.firstGap options host session ids s).1.conversations id = some state' ∧
        state'.floorReached = state.floorReached) ∧
      (id ∈ ids → state.mode = .sequence →
        (HistoryBackfillWorker.readied options host session id state).coverage.highestGap
          (HistoryBackfillWorker.readied options host session id state).upperSequence = none)
  | [],       s, _,     id, state, hstate => ⟨⟨state, hstate, rfl⟩, fun hmem => (by cases hmem)⟩
  | c :: ids, s, hnone, id, state, hstate => by
    rw [HistoryBackfillWorker.firstGap] at hnone ⊢
    cases hget : Maps.get s.conversations c with
    | none =>
      rw [hget] at hnone
      obtain ⟨hkept, hgap⟩ := firstGap_none session ids s hnone id state hstate
      refine ⟨hkept, fun hmem hseq => hgap ((mem_cons.1 hmem).resolve_left ?_) hseq⟩
      rintro rfl
      rw [hstate] at hget
      cases hget
    | some found =>
      rw [hget] at hnone
      dsimp only at hnone ⊢
      by_cases hmode : found.mode = .sequence
      · rw [if_pos hmode] at hnone ⊢
        cases hgapAt : (HistoryBackfillWorker.readied options host session c found).coverage.highestGap
            (HistoryBackfillWorker.readied options host session c found).upperSequence with
        | some gap =>
          rw [hgapAt] at hnone
          cases hnone
        | none =>
          rw [hgapAt] at hnone
          by_cases hid : id = c
          · subst hid
            rw [hstate] at hget
            cases hget
            obtain ⟨⟨state', hstate', hfloor⟩, -⟩ := firstGap_none session ids _ hnone id
              (HistoryBackfillWorker.readied options host session id state) (by rw [Maps.get_set, if_pos rfl])
            exact ⟨⟨state', hstate', hfloor.trans (readied_same session id state).1⟩, fun _ _ => hgapAt⟩
          · obtain ⟨hkept, hgap⟩ := firstGap_none session ids _ hnone id state (by rw [Maps.get_set, if_neg hid]; exact hstate)
            exact ⟨hkept, fun hmem => hgap ((mem_cons.1 hmem).resolve_left hid)⟩
      · rw [if_neg hmode] at hnone ⊢
        obtain ⟨hkept, hgap⟩ := firstGap_none session ids s hnone id state hstate
        refine ⟨hkept, fun hmem hseq => hgap ((mem_cons.1 hmem).resolve_left ?_) hseq⟩
        rintro rfl
        rw [hstate] at hget
        cases hget
        exact hmode hseq

variable {conversationId : String}

/-- **Where a conversation has work, its session has.** -/
theorem nextWork_of_hasWork (h : HasWork options host rejects now w session conversationId) :
    ∃ work, (HistoryBackfillWorker.nextWork options host now session
      (refreshed options host now session (w.session session now))).2 = some work := by
  obtain ⟨state, hstate, hwork⟩ := h.work
  have hready := h.ready
  generalize refreshed options host now session (w.session session now) = s at hstate hready
  have hnone := firstGap_none options host session (ready now s) s
  rw [nextWork_eq]
  cases hgap : HistoryBackfillWorker.firstGap options host session (ready now s) s with
  | mk s' found =>
    cases found with
    | some work => exact ⟨work, rfl⟩
    | none =>
      rw [hgap] at hnone
      obtain ⟨⟨state', hstate', hfloor⟩, hnogap⟩ := hnone rfl conversationId state hstate
      rcases hwork with hopen | ⟨hmode, hsome⟩
      · unfold thenOpen firstOpen
        dsimp only
        have hfind : ((ready now s).find? (fun id =>
            (Maps.get s'.conversations id).any (fun state => !state.floorReached))).isSome = true := by
          rw [find?_isSome]
          exact ⟨conversationId, hready, by rw [hstate', Option.any_some, hfloor, hopen]; rfl⟩
        obtain ⟨id, hid⟩ := Option.isSome_iff_exists.1 hfind
        rw [hid]
        exact ⟨_, rfl⟩
      · rw [hnogap hready hmode] at hsome
        cases hsome

/-! ## The tick -/

variable (w now) in
theorem session_setSession {id' : String} (hne : id' ≠ id) (s : SessionState) :
    (w.setSession id s).session id' now = w.session id' now := by
  unfold HistoryBackfillWorker.session HistoryBackfillWorker.setSession
  dsimp only
  rw [Maps.get_set, if_neg hne]

theorem HasWork.setSession (h : HasWork options host rejects now w session conversationId)
    (hne : session ≠ id) (s : SessionState) : HasWork options host rejects now (w.setSession id s) session conversationId := by
  have hsession := session_setSession now w hne s
  refine ⟨h.active, ?_, ?_, ?_, h.lists, h.reads, h.oldest, h.backfills⟩
  · rw [hsession]
    exact h.may
  · rw [hsession]
    exact h.ready
  · rw [hsession]
    exact h.work

theorem exists_turn (cursor : Nat) {n i : Nat} (hi : i < n) : ∃ offset, offset < n ∧ (cursor + offset) % n = i := by
  have hlt := Nat.mod_lt cursor (Nat.zero_lt_of_lt hi)
  have hdiv := Nat.div_add_mod cursor n
  refine ⟨(i + (n - cursor % n)) % n, Nat.mod_lt _ (Nat.zero_lt_of_lt hi), ?_⟩
  have hsum : cursor + (i + (n - cursor % n)) = i + n * (cursor / n + 1) := by
    rw [Nat.mul_succ]
    omega
  rw [Nat.add_mod_mod, hsum, Nat.add_mul_mod_self_left, Nat.mod_eq_of_lt hi]

theorem mem_turns (w : HistoryBackfillWorker) (h : session ∈ host.sessions) : ∃ cursor, (session, cursor) ∈ turns host w := by
  obtain ⟨i, hi, hget⟩ := getElem_of_mem h
  obtain ⟨offset, hoffset, hmod⟩ := exists_turn w.cursor hi
  refine ⟨(w.cursor + offset + 1) % host.sessions.length, mem_filterMap.2 ⟨offset, mem_range.2 hoffset, ?_⟩⟩
  rw [hmod, getElem?_eq_getElem hi, hget]
  rfl

/-- **The loop over the sessions**, where one of them has work: a request is sent if and only if nothing disturbs it. -/
theorem tickSessions_request : ∀ (turns : List (String × Nat)) (w : HistoryBackfillWorker),
    (∃ cursor, (session, cursor) ∈ turns) → HasWork options host rejects now w session conversationId →
    ((tickSessions options host rejects now turns w).2.request.isSome = true ↔
      Undisturbed options host rejects now turns w)
  | [],                   w, hturn, _ => by
    obtain ⟨_, hc⟩ := hturn
    cases hc
  | (id, cursor) :: rest, w, hturn, h => by
    have hlater : id ≠ session → ∃ cursor, (session, cursor) ∈ rest := fun hne => by
      obtain ⟨c, hc⟩ := hturn
      rcases mem_cons.1 hc with heq | hc
      · cases heq
        exact absurd rfl hne
      · exact ⟨c, hc⟩
    unfold tickSessions Undisturbed
    dsimp only
    by_cases hmay : w.mayWork options host now id (w.session id now) = true
    · rw [if_pos hmay, if_pos hmay]
      have hfound : id = session → ∃ work, (HistoryBackfillWorker.nextWork options host now id
          (refreshed options host now id (w.session id now))).2 = some work := by
        rintro rfl
        exact nextWork_of_hasWork h
      rcases turn_or options host rejects now id (w.session id now) with
        ⟨hcalls, hlists, hwork⟩ | ⟨call, hcall, hreject, hends⟩
      · rw [hlists]
        dsimp only
        rw [hwork]
        generalize HistoryBackfillWorker.nextWork options host now id
          (refreshed options host now id (w.session id now)) = found at hfound ⊢
        obtain ⟨s', work⟩ := found
        cases work with
        | none =>
          have hne : id ≠ session := fun heq => by
            obtain ⟨work, hwork⟩ := hfound heq
            cases hwork
          dsimp only
          rw [tickSessions_request rest _ (hlater hne) (h.setSession (Ne.symm hne) s')]
          exact ⟨fun hrest => ⟨hcalls, hrest⟩, fun hboth => hboth.2⟩
        | some work =>
          dsimp only
          have hrun := run_request_iff options host rejects now id work s'
          rw [hrun]
          exact ⟨fun hasks => ⟨hcalls, hasks⟩, fun hboth => hboth.2⟩
      · refine iff_of_false ?_ (fun hboth => ?_)
        · rcases hends with herror | ⟨hlists, herror⟩
          · rw [herror]
            exact Bool.false_ne_true
          · rw [hlists]
            dsimp only
            generalize nextWork options host rejects now id (refreshed options host now id (w.session id now)) = found at herror
            obtain ⟨s', found⟩ := found
            dsimp only at herror
            rw [herror]
            exact Bool.false_ne_true
        · rw [hboth.1 call hcall] at hreject
          cases hreject
    · rw [if_neg hmay, if_neg hmay]
      have hne : id ≠ session := by
        rintro rfl
        exact hmay h.may
      exact tickSessions_request rest _ (hlater hne) (h.setSession (Ne.symm hne) _)

/-- **A tick with work for some conversation sends a request if and only if nothing disturbs it.** -/
theorem tick_request_iff (options : BackfillOptions) (host : BackfillHost) (rejects : HostCall → Bool) (now : Int)
    (w : HistoryBackfillWorker)
    (h : ∃ session conversationId, HasWork options host rejects now (w.forgetInactive host.sessions) session conversationId) :
    (tick options host rejects now w).2.request.isSome = true ↔
      Undisturbed options host rejects now (turns host w) (w.forgetInactive host.sessions) := by
  obtain ⟨session, conversationId, h⟩ := h
  exact tickSessions_request (turns host w) _ (mem_turns w h.active) h

/-- **Where no call rejects** a tick is the undisturbed one. -/
theorem tickSessions_of_accepting (haccepts : ∀ call, rejects call = false) : ∀ (turns : List (String × Nat))
    (w : HistoryBackfillWorker),
    ((tickSessions options host rejects now turns w).1, (tickSessions options host rejects now turns w).2.request) =
      HistoryBackfillWorker.tickSessions options host now turns w
  | [],                   _ => rfl
  | (id, cursor) :: rest, w => by
    unfold tickSessions HistoryBackfillWorker.tickSessions
    dsimp only
    by_cases hmay : w.mayWork options host now id (w.session id now) = true
    · rw [if_pos hmay, if_pos hmay]
      rcases turn_or options host rejects now id (w.session id now) with
        ⟨-, hlists, hwork⟩ | ⟨call, -, hreject, -⟩
      · rw [hlists]
        dsimp only
        rw [hwork]
        unfold refreshed
        generalize HistoryBackfillWorker.nextWork options host now id
          (HistoryBackfillWorker.refreshConversations options host now id (w.session id now)) = found
        obtain ⟨s', work⟩ := found
        cases work with
        | none => exact tickSessions_of_accepting haccepts rest _
        | some work =>
          dsimp only
          have hrun : ((run options host rejects now id work s').1, (run options host rejects now id work s').2.request) =
              HistoryBackfillWorker.run options host now id work s' := by
            unfold run
            cases hget : Maps.get s'.conversations (workConversation work) with
            | none =>
              unfold HistoryBackfillWorker.run
              rw [hget]
              rfl
            | some state =>
              dsimp only
              rw [haccepts, Bool.and_false, if_neg Bool.false_ne_true]
              rfl
          rw [← hrun]
      · rw [haccepts] at hreject
        cases hreject
    · rw [if_neg hmay, if_neg hmay]
      exact tickSessions_of_accepting haccepts rest _

theorem tick_of_accepting (haccepts : ∀ call, rejects call = false) (w : HistoryBackfillWorker) :
    ((tick options host rejects now w).1, (tick options host rejects now w).2.request) =
      HistoryBackfillWorker.tick options host now w :=
  tickSessions_of_accepting haccepts (turns host w) _

/-! ## Two sessions -/

/-- The sessions `a` and `b`, each with one conversation and one stored message. -/
def twoSessions : BackfillHost :=
  { sessions := ["a", "b"]
    lastActivityAt := fun _ => none
    supportsHistory := fun _ => true
    supportsSequenceHistory := fun _ => false
    listConversations := fun _ => [⟨"room", .direct, false, none⟩]
    nativeSequences := fun _ _ => []
    oldestStoredMessage := fun _ _ => some ⟨"m1", 1⟩
    backfill := fun _ _ _ => .ok ⟨0, 0, none, none⟩ }

def always : BackfillOptions :=
  { idleAfterMs := 0, pageSize := 50, dailyRequestCap := 100, maxAgeDays := 0, conversationRefreshMs := 0, bootstrapBatch := 1 }

theorem hasWork_twoSessions {session : String} {rejects : HostCall → Bool} (hactive : session ∈ ["a", "b"])
    (hlists : rejects (.listConversations session) = false)
    (hreads : ∀ below, rejects (.readStoredSequences session "room" below) = false)
    (holdest : rejects (.oldestStoredMessage session "room") = false) :
    HasWork always twoSessions rejects 0 ⟨true, [], 0⟩ session "room" := by
  refine ⟨hactive, rfl, ?_, ⟨_, rfl, .inl rfl⟩, hlists, hreads, holdest, fun _ => rfl⟩
  show "room" ∈ ["room"]
  exact mem_singleton.2 rfl

theorem tick_request_behind :
    Undisturbed always twoSessions (fun call => call = .listConversations "b") 0 (turns twoSessions ⟨true, [], 0⟩)
      ⟨true, [], 0⟩ :=
  (tick_request_iff always twoSessions (fun call => call = .listConversations "b") 0 ⟨true, [], 0⟩
    ⟨"a", "room", hasWork_twoSessions (by decide) (by decide) (fun _ => rfl) (by decide)⟩).1 (by decide)

/-- The listing of the session before it rejects: nothing is sent. -/
theorem tick_request_before :
    ¬∀ (options : BackfillOptions) (host : BackfillHost) (rejects : HostCall → Bool) (now : Int) (w : HistoryBackfillWorker),
      (∃ session conversationId,
        HasWork options host rejects now (w.forgetInactive host.sessions) session conversationId) →
      (tick options host rejects now w).2.request.isSome = true := by
  intro hall
  have hsent := hall always twoSessions (fun call => call = .listConversations "a") 0 ⟨true, [], 0⟩
    ⟨"b", "room", hasWork_twoSessions (by decide) (by decide) (fun _ => rfl) (by decide)⟩
  exact absurd hsent (by decide)

end RejectingBackfill
end Crossgram
