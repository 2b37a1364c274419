import Crossgram.VoiceHandshake
/-!
# VoiceEvents — the worker's event queue (packages/voice-worker/src/worker.rs)

What a request does to the queue of outbound events: rows of `QueueMove`s, a start of a call, or one acknowledgement.
-/
namespace Crossgram
namespace Voice

open VoiceIpc (FixedBytes Response DH_PUBLIC_BYTES GA_HASH_BYTES PCM_CAPABILITY_BYTES PCM_FRAME_BYTES)

def BackendCall.IsPoll : BackendCall → Prop
  | .pollEvent _ _ => True
  | _              => False

theorem BackendCall.IsThrough.not_isPoll {c : BackendCall} {place : Nat} (h : c.IsThrough place) : ¬ c.IsPoll := by
  intro hpoll
  cases c with
  | pollEvent _ _ => exact h
  | _ => exact hpoll

theorem BackendCall.IsOn.not_isPoll {c : BackendCall} {place : Nat} (h : c.IsOn place) : ¬ c.IsPoll := by
  intro hpoll
  cases c with
  | pollEvent _ _ => exact h
  | _ => exact hpoll

/-- An answer of `poll_event` or `ack_event`. -/
def IsEventAnswer : Response → Prop
  | .event _ _ | .eventAcknowledged _ => True
  | _ => False

structure EventQueue where
  active : Option UInt64
  events : List PendingEvent
  next : UInt64
  acked : Option (UInt64 × UInt64)
  recent : Option Response
  calls : List BackendCall

inductive QueueMove : EventQueue → EventQueue → Prop
  | silent (q calls) : (∀ c ∈ calls, ¬ c.IsPoll) → QueueMove q { q with calls := q.calls ++ calls }
  | clear (q calls) : (∀ c ∈ calls, ¬ c.IsPoll) →
      QueueMove q { q with active := none, events := [], acked := none, calls := q.calls ++ calls }
  | forget (q) : QueueMove q { q with recent := none }
  | remember (q response) : ¬ IsEventAnswer response → QueueMove q { q with recent := some response }
  | nothing (q) : QueueMove q { q with calls := q.calls ++ [.pollEvent q.events.length (.ok none)] }
  | take (q callId signal) : q.active = some callId → q.events.length ≠ MAX_OUTBOUND_EVENTS →
      QueueMove q { q with
        events := q.events ++ [{ callId, id := q.next, event := .outboundSignal signal }]
        next := nextId q.next
        calls := q.calls ++ [.pollEvent q.events.length (.ok (some (.outboundSignal signal)))] }
  | drop (q signal) : q.events.length = MAX_OUTBOUND_EVENTS →
      QueueMove q { q with calls := q.calls ++ [.pollEvent q.events.length (.ok (some (.outboundSignal signal)))] }
  | fail (q callId event calls) : q.active = some callId → VoiceWorker.eventOf event = some .nativeError →
      (∀ c ∈ calls, ¬ c.IsPoll) → QueueMove q { q with
        active := none
        events := [{ callId, id := q.next, event := .nativeError }]
        next := nextId q.next
        acked := none
        calls := q.calls ++ .pollEvent q.events.length event :: calls }

abbrev QueueMoves : EventQueue → EventQueue → Prop := Relation.ReflTransGen QueueMove

theorem remembered_move {q q' : EventQueue} (hm : QueueMove q q') (h : ∀ response ∈ q.recent, ¬ IsEventAnswer response) :
    ∀ response ∈ q'.recent, ¬ IsEventAnswer response := by
  cases hm with
  | forget => exact fun response hr => by cases hr
  | remember response hnot =>
    intro response' hr
    cases hr
    exact hnot
  | _ => exact h

theorem remembered_moves {q q' : EventQueue} (hm : QueueMoves q q') (h : ∀ response ∈ q.recent, ¬ IsEventAnswer response) :
    ∀ response ∈ q'.recent, ¬ IsEventAnswer response := by
  induction hm with
  | refl => exact h
  | tail _ hstep ih => exact remembered_move hstep ih

namespace VoiceWorker

variable {β H P : Type} (B : MediaBackend β H P) (hashes : Hashes)

def queue (w : VoiceWorker β H P) : EventQueue where
  active := w.activeId?
  events := w.events
  next := w.nextEventId
  acked := w.lastAckedEvent
  recent := w.recent.map (fun replay => replay.response)
  calls := w.calls

variable {w w' : VoiceWorker β H P} {now : Nanoseconds} {callId : UInt64}

theorem queueMoves_of_eq (h : w'.queue = w.queue) : QueueMoves w.queue w'.queue := h ▸ .refl

theorem queue_refreshActive : (w.refreshActive now callId).queue = w.queue := by
  unfold refreshActive
  split
  · rename_i call hstate
    split
    · unfold queue activeId?
      rw [hstate]
      rfl
    · rfl
  · rfl

theorem queueMoves_forgetRecent : QueueMoves w.queue (w.forgetRecent now).queue := by
  unfold forgetRecent
  split
  · exact .refl
  · split
    · exact .single (.forget _)
    · exact .refl

/-! ## The end of a call -/

theorem events_teardownMedia : (teardownMedia B w).events = w.events ∧ (teardownMedia B w).nextEventId = w.nextEventId ∧
    (teardownMedia B w).lastAckedEvent = w.lastAckedEvent ∧ (teardownMedia B w).recent = w.recent := by
  unfold teardownMedia closeEndpoint stopMedia
  cases w.endpoint <;> cases w.media <;> exact ⟨rfl, rfl, rfl, rfl⟩

theorem queue_teardownMedia : ∃ calls, (∀ c ∈ calls, ¬ c.IsPoll) ∧
    (teardownMedia B w).queue = { w.queue with active := none, calls := w.calls ++ calls } := by
  have hcalls : (teardownMedia B w).calls = w.calls ++ _ := congrArg Ledger.calls (ledger_teardownMedia B)
  obtain ⟨hevents, hnext, hacked, hrecent⟩ := events_teardownMedia B (w := w)
  refine ⟨(w.ledger.pcm.map BackendCall.closePcm).toList ++ (w.ledger.handle.map BackendCall.stop).toList, fun c hc => ?_, ?_⟩
  · rcases Ledger.mem_givenBack hc with ⟨m, rfl⟩ | ⟨n, rfl⟩ <;> exact fun hpoll => hpoll
  · unfold queue
    rw [activeId?_teardownMedia, hevents, hnext, hacked, hrecent, hcalls]

theorem queueMoves_teardown : QueueMoves w.queue (teardown B w).queue := by
  unfold teardown
  obtain ⟨calls, hquiet, hqueue⟩ := queue_teardownMedia B (w := { w with events := [], lastAckedEvent := none })
  rw [hqueue]
  exact .single (.clear _ calls hquiet)

theorem queueMoves_expire : QueueMoves w.queue (expire B w now).queue := by
  unfold expire
  split
  · exact (queueMoves_teardown B).trans queueMoves_forgetRecent
  · exact queueMoves_forgetRecent

/-! ## Events -/

theorem queueMoves_collectNativeEvents (hmedia : w.media.isSome = w.isActive) :
    QueueMoves w.queue (collectNativeEvents B w).queue := by
  unfold collectNativeEvents
  split
  · exact .refl
  · rename_i handle hsome
    rw [hsome] at hmedia
    unfold isActive at hmedia
    obtain ⟨call, hcall⟩ := Option.isSome_iff_exists.1 hmedia.symm
    have hactive : w.activeId? = some call.callId := by
      unfold activeId?
      rw [hcall]
      rfl
    have hactive' : (polled B w).1.activeId? = some call.callId := hactive
    dsimp only
    rw [hactive']
    cases hevent : eventOf (polled B w).2 with
    | none =>
      have hnothing : (polled B w).2 = .ok none := by
        cases hpoll : (polled B w).2 with
        | ok event =>
          rw [hpoll] at hevent
          exact congrArg Except.ok hevent
        | error _ =>
          rw [hpoll] at hevent
          cases hevent
      have hmove := QueueMove.nothing w.queue
      rw [← hnothing] at hmove
      exact .single hmove
    | some event =>
      cases event with
      | outboundSignal signal =>
        have hsignal : (polled B w).2 = .ok (some (.outboundSignal signal)) := by
          cases hpoll : (polled B w).2 with
          | ok event =>
            rw [hpoll] at hevent
            exact congrArg Except.ok hevent
          | error _ =>
            rw [hpoll] at hevent
            cases hevent
        unfold queueEvent
        dsimp only
        split
        · rename_i hfull
          have hmove := QueueMove.drop w.queue signal hfull
          rw [← hsignal] at hmove
          exact .single hmove
        · rename_i hroom
          have hmove := QueueMove.take w.queue _ signal hactive hroom
          rw [← hsignal] at hmove
          exact .single hmove
      | nativeError =>
        unfold queueEvent
        dsimp only
        obtain ⟨calls, hquiet, hqueue⟩ := queue_teardownMedia B (w := { (polled B w).1 with
          events := [{ callId := call.callId, id := (polled B w).1.nextEventId, event := .nativeError }]
          lastAckedEvent := none
          nextEventId := nextId (polled B w).1.nextEventId })
        rw [hqueue]
        have hmove := QueueMove.fail w.queue _ (polled B w).2 calls hactive hevent hquiet
        refine .single ?_
        have hcalls : (polled B w).1.calls ++ calls =
            w.calls ++ .pollEvent w.events.length (polled B w).2 :: calls := List.append_assoc _ _ _
        dsimp only
        rw [hcalls]
        exact hmove

theorem queueMoves_settle {request : VoiceIpc.Request} (h : w.ledger.Inv) :
    QueueMoves w.queue (settle B w now request).queue := by
  unfold settle
  rw [← queue_refreshActive (w := w)]
  refine (queueMoves_expire B).trans (queueMoves_collectNativeEvents B ?_)
  have hexpire : Moves (w.refreshActive now (callIdOf request)).ledger
      (expire B (w.refreshActive now (callIdOf request)) now).ledger := moves_expire B
  rw [ledger_refreshActive] at hexpire
  have hhandle := (h.moves hexpire).handle
  unfold ledger at hhandle
  rwa [Option.isSome_map] at hhandle

/-! ## Requests -/

theorem queueMove_one (q : EventQueue) {c : BackendCall} (hc : ¬ c.IsPoll) : QueueMove q { q with calls := q.calls ++ [c] } :=
  .silent q [c] (fun x hx => by rw [List.mem_singleton.1 hx]; exact hc)

theorem queueMoves_call {c : BackendCall} (hqueue : w'.queue = { w.queue with calls := w.calls ++ [c] }) (hc : ¬ c.IsPoll) :
    QueueMoves w.queue w'.queue := by
  rw [hqueue]
  exact .single (queueMove_one w.queue hc)

inductive QueueStep (state : CallState) (request : VoiceIpc.Request) (q q' : EventQueue) : Prop
  | moved : QueueMoves q q' → QueueStep state request q q'
  | started {q₁ : EventQueue} {c : BackendCall} : QueueMoves q q₁ → state.active? = none → state ≠ .idle → ¬ c.IsPoll →
      q' = { q₁ with active := some (callIdOf request), calls := q₁.calls ++ [c] } → QueueStep state request q q'
  | acked {q₁ : EventQueue} {event : PendingEvent} {events : List PendingEvent} : QueueMoves q q₁ →
      q₁.events = event :: events → request = .ackEvent event.callId event.id →
      q' = { q₁ with events, acked := some (event.callId, event.id) } → QueueStep state request q q'

theorem activeId?_of_idle (h : w.state = .idle) : w.activeId? = none := activeId?_eq_none (by rw [h]; rfl)

theorem queue_drawn {state : CallState} (hidle : w.state = .idle) (hactive : state.active? = none) :
    ({ w with state } : VoiceWorker β H P).queue = w.queue := by
  have hnone : ({ w with state } : VoiceWorker β H P).activeId? = none := activeId?_eq_none hactive
  unfold queue
  rw [activeId?_of_idle hidle, hnone]

theorem queue_taken (h : w.state.active? = none) (recent : Option Replay) :
    ({ w with state := .idle, recent } : VoiceWorker β H P).queue =
      { w.queue with recent := recent.map (fun replay => replay.response) } := by
  unfold queue
  rw [activeId?_eq_none h]
  rfl

theorem queueMoves_rejected (h : w.state.active? = none) {request : VoiceIpc.Request} {response : Response}
    (hanswer : ¬ IsEventAnswer response) : QueueMoves w.queue
      (({ w with state := .idle } : VoiceWorker β H P).remember now request response).1.queue := by
  have hmove := QueueMove.remember w.queue response hanswer
  have hrecent := queue_taken h (some { request, response, expires := now + w.ttl })
  unfold remember
  rw [hrecent]
  exact .single hmove

variable {B hashes} {a : Arrival}

theorem queueStep_outcome {result : VoiceWorker β H P × Response} (h : Outcome B hashes a w result)
    (hmedia : w.media.isSome = w.isActive) : QueueStep w.state a.request w.queue result.1.queue := by
  cases h with
  | refused | recalled | acknowledged => exact .moved .refl
  | acked ha hevents => exact .acked .refl hevents ha rfl
  | drawn hidle _ hdrawn _ => exact .moved (queueMoves_of_eq (queue_drawn hidle (drawn_callId hdrawn).2))
  | rejected _ _ hactive => exact .moved (queueMoves_rejected hactive (fun h => h))
  | startRefused hagreed => exact .moved (queueMoves_rejected (agreed_callId hagreed).2.1 (fun h => h))
  | @startFailed sharedKey server _ _ backend hagreed =>
    have hfailed : QueueMoves w.queue ({ w with
        backend
        calls := w.calls ++ [.start { callId := callIdOf a.request, server, authKey := sharedKey } none] } :
          VoiceWorker β H P).queue := queueMoves_call rfl (fun h => h)
    refine .moved (hfailed.trans ?_)
    have hactive := (agreed_callId hagreed).2.1
    exact @queueMoves_rejected β H P { w with
      backend
      calls := w.calls ++ [.start { callId := callIdOf a.request, server, authKey := sharedKey } none] } a.now hactive
      a.request mediaUnavailable (fun h => h)
  | @started sharedKey server _ _ backend handle hagreed _ _ _ =>
    obtain ⟨hid, hactive, -⟩ := agreed_callId hagreed
    exact .started .refl hactive (fun hidle => by rw [hidle] at hid; cases hid)
      (c := .start { callId := callIdOf a.request, server, authKey := sharedKey } (some w.calls.length)) (fun h => h) rfl
  | @forwarded _ _ signal handle backend value _ _ hstate _ _ _ =>
    refine .moved (queueMoves_call (c := .forwardSignal handle.place signal) ?_ (fun hpoll => hpoll))
    unfold queue activeId?
    rw [hstate]
    rfl
  | @attached _ _ handle backend value pcm _ _ _ _ =>
    exact .moved (queueMoves_call (c := .attachPcm handle.place (some w.calls.length)) rfl (fun hpoll => hpoll))
  | handleFailed backend value hc _ _ _ => exact .moved ((queueMoves_call rfl hc.not_isPoll).trans (queueMoves_teardown B))
  | pcmFailed backend value hc _ _ _ => exact .moved ((queueMoves_call rfl hc.not_isPoll).trans (queueMoves_teardown B))
  | pcmUsed backend value _ hc _ _ _ => exact .moved (queueMoves_call rfl hc.not_isPoll)
  | closed _ _ => exact .moved (queueMoves_teardown B)
  | hungUp _ _ => exact .moved ((queueMoves_teardown B).tail (.remember _ .hungUp (fun h => h)))
  | polled _ _ => exact .moved (queueMoves_collectNativeEvents B hmedia)

theorem queueStep_dispatch {random : Option (FixedBytes DH_PUBLIC_BYTES)} (request : VoiceIpc.Request)
    (hmedia : w.media.isSome = w.isActive) :
    QueueStep w.state request w.queue (dispatch B hashes w now random request).1.queue :=
  queueStep_outcome (dispatch_outcome B hashes (a := ⟨now, random, request⟩)) hmedia

theorem ledger_settle {request : VoiceIpc.Request} (h : w.ledger.Inv) :
    (settle B w now request).media.isSome = (settle B w now request).isActive := by
  have hmoves : Moves w.ledger (settle B w now request).ledger := moves_settle B
  have hhandle := (h.moves hmoves).handle
  unfold ledger at hhandle
  rwa [Option.isSome_map] at hhandle

/-- **What a request does to the queue.** -/
theorem queueStep_step (h : w.ledger.Inv) :
    QueueStep w.state a.request w.queue (step B hashes w a).1.queue := by
  have hsettle : QueueMoves w.queue (settle B w a.now a.request).queue := queueMoves_settle B h
  have hcontinued : Continued w (settle B w a.now a.request) := continued_settle B
  unfold step handle
  dsimp only
  split
  · exact .moved hsettle
  · have hdispatch : QueueStep (settle B w a.now a.request).state a.request (settle B w a.now a.request).queue
        (dispatch B hashes (settle B w a.now a.request) a.now a.random a.request).1.queue :=
      queueStep_dispatch a.request (ledger_settle h)
    cases hdispatch with
    | moved hmoves => exact .moved (hsettle.trans hmoves)
    | started hmoves hactive hidle hc hq =>
      have hsame := hcontinued.state.prepared hidle hactive
      exact .started (hsettle.trans hmoves) (hsame ▸ hactive) (hsame ▸ hidle) hc hq
    | acked hmoves hevents hrequest hq => exact .acked (hsettle.trans hmoves) hevents hrequest hq

theorem dispatch_of_answer (h : w.ledger.Inv) (hremembered : ∀ response ∈ w.queue.recent, ¬ IsEventAnswer response)
    (hanswer : IsEventAnswer (step B hashes w a).2) : (settle B w a.now a.request).ledger.Inv ∧
      step B hashes w a = dispatch B hashes (settle B w a.now a.request) a.now a.random a.request := by
  have hinv : (settle B w a.now a.request).ledger.Inv := h.moves (moves_settle B)
  refine ⟨hinv, ?_⟩
  have hstill : ∀ response ∈ (settle B w a.now a.request).queue.recent, ¬ IsEventAnswer response :=
    remembered_moves (queueMoves_settle B h) hremembered
  unfold step handle at hanswer ⊢
  dsimp only at hanswer ⊢
  cases hreplay : (settle B w a.now a.request).replayOf a.request with
  | none => rfl
  | some response =>
    rw [hreplay] at hanswer
    unfold replayOf at hreplay
    cases hrecent : (settle B w a.now a.request).recent with
    | none =>
      rw [hrecent] at hreplay
      cases hreplay
    | some replay =>
      rw [hrecent] at hreplay
      dsimp only at hreplay hanswer
      split at hreplay
      · cases hreplay
        refine absurd hanswer (hstill _ ?_)
        unfold queue
        rw [hrecent]
        rfl
      · split at hreplay
        · cases hreplay
          exact hanswer.elim
        · cases hreplay

theorem step_pollEvent (ha : a.request = .pollEvent callId) (h : w.ledger.Inv)
    (hremembered : ∀ response ∈ w.queue.recent, ¬ IsEventAnswer response) {eventId : UInt64} {event : VoiceIpc.WorkerEvent}
    (hreply : (step B hashes w a).2 = .event eventId event) :
    ∃ pending, (step B hashes w a).1.events.find? (fun event => event.callId = callId) = some pending ∧
      pending.id = eventId ∧ ∀ signal, event = .outboundSignal signal ↔ pending.event = .outboundSignal signal := by
  obtain ⟨-, hdispatch⟩ := dispatch_of_answer h hremembered (by rw [hreply]; exact trivial)
  rw [hdispatch, ha] at hreply ⊢
  unfold dispatch pollEvent at hreply ⊢
  dsimp only at hreply ⊢
  cases hfind : (collectNativeEvents B (settle B w a.now (.pollEvent callId))).events.find?
      (fun event => event.callId = callId) with
  | none =>
    rw [hfind] at hreply
    cases hreply
  | some pending =>
    rw [hfind] at hreply
    cases hreply
    refine ⟨pending, hfind, rfl, fun signal => ?_⟩
    cases pending.event with
    | outboundSignal signal' =>
      constructor <;> (intro h; cases h; rfl)
    | nativeError => exact ⟨(fun h => by cases h), (fun h => by cases h)⟩

theorem step_ackEvent {eventId : UInt64} (ha : a.request = .ackEvent callId eventId) (h : w.ledger.Inv)
    (hremembered : ∀ response ∈ w.queue.recent, ¬ IsEventAnswer response) {eventId' : UInt64}
    (hreply : (step B hashes w a).2 = .eventAcknowledged eventId') :
    eventId' = eventId ∧ (step B hashes w a).1.lastAckedEvent = some (callId, eventId) := by
  obtain ⟨-, hdispatch⟩ := dispatch_of_answer h hremembered (by rw [hreply]; exact trivial)
  rw [hdispatch, ha] at hreply ⊢
  unfold dispatch ackEvent at hreply ⊢
  dsimp only at hreply ⊢
  split at hreply
  · rename_i hlast
    cases hreply
    rw [if_pos hlast]
    exact ⟨rfl, hlast⟩
  · rename_i hlast
    rw [if_neg hlast]
    cases hevents : (settle B w a.now (.ackEvent callId eventId)).events with
    | nil =>
      rw [hevents] at hreply
      cases hreply
    | cons event events =>
      rw [hevents] at hreply
      dsimp only at hreply ⊢
      split at hreply
      · cases hreply
      · rename_i hfront
        cases hreply
        rw [if_neg hfront]
        exact ⟨rfl, rfl⟩

end VoiceWorker

end Voice
end Crossgram
