import Crossgram.VoiceProvenance
/-!
# VoiceMemory — what one request leaves of what the worker remembers (packages/voice-worker/src/worker.rs)

Answers are remembered in five places: the state of the call, its list of signals, the endpoint, the last
acknowledgement and the record of a request (`Recalls`).  `Effect` says what becomes of them when a request is
dispatched, with its answer and the calls that it makes.
-/
namespace Crossgram
namespace Voice

open List
open VoiceIpc (FixedBytes Response DH_PUBLIC_BYTES GA_HASH_BYTES PCM_CAPABILITY_BYTES PCM_FRAME_BYTES MAX_SIGNAL_BYTES)

structure Memory extends CallView where
  acked : Option (UInt64 × UInt64)
  ttl : Nanoseconds

def BackendCall.isCaused : BackendCall → Bool
  | .start _ _ | .forwardSignal _ _ | .attachPcm _ _ => true
  | _ => false

theorem BackendCall.IsOn.not_isCaused {c : BackendCall} {place : Nat} (h : c.IsOn place) : c.isCaused = false := by
  cases c with
  | start _ _ => exact h.elim
  | forwardSignal _ _ => exact h.elim
  | attachPcm _ _ => exact h.elim
  | _ => rfl

inductive Recalls (hashes : Hashes) (m : Memory) : VoiceIpc.Request → Response → Prop
  | ofCall {request response} : CallRecalls hashes m.toCallView request response → Recalls hashes m request response
  | acknowledged {callId eventId} : m.acked = some (callId, eventId) →
      Recalls hashes m (.ackEvent callId eventId) (.eventAcknowledged eventId)
  | recorded {replay} : m.recent = some replay → Recalls hashes m replay.request replay.response

theorem CallRecalls.callId? {hashes : Hashes} {v : CallView} {request : VoiceIpc.Request} {response : Response}
    (h : CallRecalls hashes v request response) : v.state.callId? = some (callIdOf request) := by
  cases h with
  | callerPrepared hstate => rw [hstate]; rfl
  | recipientPrepared hstate => rw [hstate]; rfl
  | completed _ hstate hid => rw [hstate]; exact congrArg some hid
  | forwarded _ hstate => rw [hstate]; rfl
  | attached hstate => rw [hstate]; rfl

def Memory.torn (m : Memory) : Memory := { m with state := .idle, attached := none, acked := none }

/-- **What a request does to what is remembered**, with its answer and the calls it makes.  An answer that leaves everything as
it is is an error or the one remembered. -/
inductive Effect (hashes : Hashes) (a : Arrival) (response : Response) : List BackendCall → Memory → Memory → Prop
  | kept (calls m) : (∀ c ∈ calls, c.isCaused = false) →
      (IsRemembered a.request → (∀ code, response ≠ .error code) → calls = [] ∧ Recalls hashes m a.request response) →
      Effect hashes a response calls m m
  | polledError (calls m) : (∃ c ∈ calls, c.IsNativeError) → ¬ IsRemembered a.request → Effect hashes a response calls m m.torn
  | closed (calls m) : ¬ IsRemembered a.request → m.state.callId? = some (callIdOf a.request) → response = .mediaClosed →
      (∃ callId capability, a.request = .closeMedia callId capability) → Effect hashes a response calls m m.torn
  | failed (calls m) : m.state.callId? = some (callIdOf a.request) → response = mediaUnavailable → ¬ IsCompletion a.request →
      Effect hashes a response calls m m.torn
  | hungUp (calls m) : m.state.callId? = some (callIdOf a.request) → a.request = .hangup (callIdOf a.request) →
      (∀ c ∈ calls, c.isCaused = false) → Effect hashes a response calls m
        { m.torn with recent := some { request := a.request, response, expires := a.now + m.ttl } }
  | rejected (calls m) : m.state.callId? = some (callIdOf a.request) → IsCompletion a.request →
      (response = cryptoError ∨ response = mediaUnavailable) → Effect hashes a response calls m
        { m with state := .idle, recent := some { request := a.request, response, expires := a.now + m.ttl } }
  | acknowledged (m callId eventId) : a.request = .ackEvent callId eventId → response = .eventAcknowledged eventId →
      Effect hashes a response [] m { m with acked := some (callId, eventId) }
  | forwarded (m call requestId signal handle) : signal.length ≤ MAX_SIGNAL_BYTES →
      a.request = .signal call.callId requestId signal → m.state = .active call →
      call.signalReplays.find? (fun replay => replay.callId = call.callId ∧ replay.requestId = requestId) = none →
      call.signalReplays.length ≠ MAX_SIGNAL_REPLAY_ENTRIES → response = .signalForwarded requestId → Effect hashes a response [.forwardSignal handle signal] m { m with
        state := .active { call with
          signalReplays := call.signalReplays ++ [signalRecord hashes call.callId requestId signal] } }
  | attached (m call requestId handle given) : a.request = .attachMedia call.callId requestId → m.state = .active call →
      response = .mediaAttached requestId (endpointCapability hashes call.endpointKey call.callId requestId) →
      Effect hashes a response [.attachPcm handle (some given)] m { m with
        attached := some (requestId, endpointCapability hashes call.endpointKey call.callId requestId) }
  | callerDrawn (m secret) : m.state = .idle → DhPrivate.generate a.random = .ok secret →
      a.request = .prepareCaller (callIdOf a.request) → response = .callerPrepared (hashes.gaHash (publicValue secret)) →
      Effect hashes a response [] m { m with
        state := .callerPrepared (callIdOf a.request) secret (publicValue secret) (hashes.gaHash (publicValue secret)) a.now }
  | recipientDrawn (m secret gaHash) : m.state = .idle → DhPrivate.generate a.random = .ok secret →
      a.request = .prepareRecipient (callIdOf a.request) gaHash → response = .recipientPrepared (publicValue secret) →
      Effect hashes a response [] m { m with
        state := .recipientPrepared (callIdOf a.request) secret gaHash (publicValue secret) a.now }
  | started (m sharedKey server isOutgoing place) : Agreed hashes m.state a.request sharedKey server isOutgoing response →
      Effect hashes a response [.start { callId := callIdOf a.request, server, authKey := sharedKey } (some place)] m
        { m with state := .active (startedCall hashes a sharedKey response) }

namespace VoiceWorker

variable {β H P : Type} (B : MediaBackend β H P) (hashes : Hashes)

def memory (w : VoiceWorker β H P) : Memory where
  toCallView := w.view
  acked := w.lastAckedEvent
  ttl := w.ttl

def Dispatches (a : Arrival) (w : VoiceWorker β H P) (result : VoiceWorker β H P × Response) : Prop :=
  ∃ calls, result.1.calls = w.calls ++ calls ∧ Effect hashes a result.2 calls w.memory result.1.memory

variable {w w' : VoiceWorker β H P} {a : Arrival} {now : Nanoseconds} {callId : UInt64}

theorem memory_teardownMedia : (teardownMedia B w).memory = { w.memory with state := .idle, attached := none } := by
  unfold teardownMedia closeEndpoint stopMedia memory view
  cases w.endpoint <;> cases w.media <;> rfl

theorem memory_teardown : (teardown B w).memory = w.memory.torn := memory_teardownMedia B

theorem not_isCaused_teardown : ∃ calls, (teardownMedia B w).calls = w.calls ++ calls ∧ ∀ c ∈ calls, c.isCaused = false := by
  refine ⟨_, congrArg Ledger.calls (ledger_teardownMedia B), fun c hc => ?_⟩
  rcases Ledger.mem_givenBack hc with ⟨m, rfl⟩ | ⟨n, rfl⟩ <;> rfl

theorem dispatches_error (code : VoiceIpc.ErrorCode) : Dispatches hashes a w (w, .error code) :=
  ⟨[], (append_nil _).symm, .kept _ _ (fun _ hc => by cases hc) (fun _ hne => absurd rfl (hne code))⟩

theorem dispatches_recalled {response : Response} (h : Recalls hashes w.memory a.request response) :
    Dispatches hashes a w (w, response) :=
  ⟨[], (append_nil _).symm, .kept _ _ (fun _ hc => by cases hc) (fun _ _ => ⟨rfl, h⟩)⟩

theorem memory_endpoint {endpoint : MediaEndpoint P} (h : w.endpoint = some endpoint) (backend : β) (value : P)
    (calls : List BackendCall) :
    ({ w with backend, endpoint := some { endpoint with pcm := { endpoint.pcm with value } }, calls } :
      VoiceWorker β H P).memory = w.memory := by
  unfold memory view
  rw [h]
  rfl

theorem calls_teardown_quiet : ∃ calls, (teardown B w).calls = w.calls ++ calls ∧ ∀ c ∈ calls, c.isCaused = false :=
  not_isCaused_teardown B (w := { w with events := [], lastAckedEvent := none })

theorem dispatches_failed {c : BackendCall} (hmemory : w'.memory = w.memory) (hcalls : w'.calls = w.calls ++ [c])
    (hid : w.state.callId? = some (callIdOf a.request)) (hnot : ¬ IsCompletion a.request) :
    Dispatches hashes a w (finishWithoutReplay B w' mediaUnavailable) := by
  obtain ⟨calls, htorn, -⟩ := calls_teardown_quiet B (w := w')
  refine ⟨[c] ++ calls, ?_, ?_⟩
  · rw [← append_assoc, ← hcalls]
    exact htorn
  · have hteardown : (finishWithoutReplay B w' mediaUnavailable).1.memory = w.memory.torn := by
      rw [← hmemory]
      exact memory_teardown B
    rw [hteardown]
    exact .failed _ _ hid rfl hnot

theorem dispatches_drawn {secret : DhPrivate} {state : CallState} {response : Response} (hidle : w.state = .idle)
    (hsecret : DhPrivate.generate a.random = .ok secret) (hdrawn : Drawn hashes a.now secret a.request state)
    (hrecalls : CallRecalls hashes { w.view with state } a.request response) :
    Dispatches hashes a w ({ w with state }, response) := by
  refine ⟨[], (append_nil _).symm, ?_⟩
  generalize hrequest : a.request = request at hdrawn hrecalls
  cases hdrawn with
  | caller callId =>
    generalize hprepared : VoiceIpc.Request.prepareCaller callId = asked at hrecalls
    cases hrecalls with
    | callerPrepared hstate =>
      cases hstate
      have hid : callIdOf a.request = callId := congrArg callIdOf hrequest
      have hdrawn := @Effect.callerDrawn hashes a _ w.memory secret hidle hsecret (by rw [hid, hrequest]) rfl
      rw [hid] at hdrawn
      exact hdrawn
    | completed _ hstate _ => cases hstate
    | _ => cases hprepared
  | recipient callId gaHash =>
    generalize hprepared : VoiceIpc.Request.prepareRecipient callId gaHash = asked at hrecalls
    cases hrecalls with
    | recipientPrepared hstate =>
      cases hstate
      have hid : callIdOf a.request = callId := congrArg callIdOf hrequest
      have hdrawn := @Effect.recipientDrawn hashes a _ w.memory secret gaHash hidle hsecret (by rw [hid, hrequest]) rfl
      rw [hid] at hdrawn
      exact hdrawn
    | completed _ hstate _ => cases hstate
    | _ => cases hprepared

theorem collectNativeEvents_spec : ∃ calls, (collectNativeEvents B w).calls = w.calls ++ calls ∧
    (∀ c ∈ calls, c.isCaused = false) ∧ ((collectNativeEvents B w).memory = w.memory ∨
      ((∃ c ∈ calls, c.IsNativeError) ∧ (collectNativeEvents B w).memory = w.memory.torn)) := by
  unfold collectNativeEvents
  split
  · exact ⟨[], (append_nil _).symm, (fun _ hc => by cases hc), .inl rfl⟩
  · have hpolled : ∀ c ∈ [BackendCall.pollEvent w.events.length (polled B w).2], c.isCaused = false := by
      intro c hc
      rw [mem_singleton.1 hc]
      rfl
    dsimp only
    split
    · rename_i event callId hevent hactive
      cases event with
      | outboundSignal signal =>
        unfold queueEvent
        dsimp only
        split <;> exact ⟨_, rfl, hpolled, .inl rfl⟩
      | nativeError =>
        obtain ⟨calls, hcalls, hquiet⟩ : ∃ calls, (queueEvent B (polled B w).1 callId .nativeError).calls =
            (polled B w).1.calls ++ calls ∧ ∀ c ∈ calls, c.isCaused = false := not_isCaused_teardown B
        refine ⟨.pollEvent w.events.length (polled B w).2 :: calls, ?_, fun c hc => ?_, .inr ⟨?_, memory_teardownMedia B⟩⟩
        · rw [hcalls]
          exact append_assoc _ _ _
        · rcases mem_cons.1 hc with rfl | hc
          · rfl
          · exact hquiet c hc
        · exact ⟨_, mem_cons_self, hevent⟩
    · exact ⟨_, rfl, hpolled, .inl rfl⟩

theorem dispatches_outcome {result : VoiceWorker β H P × Response} (h : Outcome B hashes a w result) :
    Dispatches hashes a w result := by
  cases h with
  | refused code _ => exact dispatches_error hashes code
  | recalled hrecalls => exact dispatches_recalled hashes (.ofCall hrecalls)
  | acknowledged ha hacked => exact dispatches_recalled hashes (by rw [ha]; exact .acknowledged hacked)
  | acked ha _ => exact ⟨[], (append_nil _).symm, .acknowledged w.memory _ _ ha rfl⟩
  | drawn hidle hsecret hdrawn hrecalls => exact dispatches_drawn hashes hidle hsecret hdrawn hrecalls
  | rejected hcompletion hid _ => exact ⟨[], (append_nil _).symm, .rejected [] w.memory hid hcompletion (.inl rfl)⟩
  | startRefused hagreed =>
    exact ⟨[], (append_nil _).symm,
      .rejected [] w.memory (agreed_callId hagreed).1 (completion_of_agreed hagreed) (.inr rfl)⟩
  | startFailed _ hagreed =>
    exact ⟨_, rfl, .rejected _ w.memory (agreed_callId hagreed).1 (completion_of_agreed hagreed) (.inr rfl)⟩
  | started _ _ hagreed _ _ _ => exact ⟨_, rfl, .started w.memory _ _ _ _ hagreed⟩
  | forwarded _ _ hlength ha hstate hfind hroom _ =>
    exact ⟨_, rfl, .forwarded w.memory _ _ _ _ hlength ha hstate hfind hroom rfl⟩
  | attached _ _ _ ha hstate _ _ => exact ⟨_, rfl, .attached w.memory _ _ _ _ ha hstate rfl⟩
  | handleFailed _ _ _ _ hid hnot => exact dispatches_failed B hashes rfl rfl (callId?_of_activeId? hid) hnot
  | pcmFailed _ _ _ hendpoint hid hnot =>
    exact dispatches_failed B hashes (memory_endpoint hendpoint _ _ _) rfl (callId?_of_activeId? hid) hnot
  | pcmUsed _ _ _ hc hendpoint _ hnot =>
    refine ⟨_, rfl, ?_⟩
    rw [memory_endpoint hendpoint]
    refine .kept _ _ (fun x hx => ?_) (fun h => absurd h hnot)
    rw [mem_singleton.1 hx]
    exact hc.not_isCaused
  | @closed callId capability ha hid =>
    obtain ⟨calls, hcalls, -⟩ := calls_teardown_quiet B (w := w)
    refine ⟨calls, hcalls, ?_⟩
    rw [memory_teardown]
    refine .closed _ _ (by rw [ha]; exact fun h => h) ?_ rfl ⟨_, _, ha⟩
    rw [ha]
    exact callId?_of_activeId? hid
  | hungUp ha hid =>
    obtain ⟨calls, hcalls, hquiet⟩ := calls_teardown_quiet B (w := w)
    refine ⟨calls, hcalls, ?_⟩
    have htorn := memory_teardown B (w := w)
    have hremember : ((teardown B w).remember a.now a.request .hungUp).1.memory = { (teardown B w).memory with
        recent := some ⟨a.request, .hungUp, a.now + (teardown B w).memory.ttl⟩ } := rfl
    rw [hremember, htorn]
    exact .hungUp _ _ hid ha hquiet
  | polled _ ha =>
    have hnot : ¬ IsRemembered a.request := by
      rw [ha]
      exact fun h => h
    obtain ⟨calls, hcalls, hquiet, hmemory | ⟨herror, hmemory⟩⟩ := collectNativeEvents_spec B (w := w)
    · refine ⟨calls, hcalls, ?_⟩
      rw [hmemory]
      exact .kept _ _ hquiet (fun h => absurd h hnot)
    · refine ⟨calls, hcalls, ?_⟩
      rw [hmemory]
      exact .polledError _ _ herror hnot

/-- **What a request does to what is remembered.** -/
theorem dispatches : Dispatches hashes a w (dispatch B hashes w a.now a.random a.request) :=
  dispatches_outcome B hashes (dispatch_outcome B hashes)

/-! ## Before a request -/

def unexpired (now : Nanoseconds) (recent : Option Replay) : Option Replay := recent.filter (fun replay => now < replay.expires)

theorem recent_forgetRecent : (w.forgetRecent now).memory = { w.memory with recent := unexpired now w.recent } := by
  unfold forgetRecent unexpired
  split
  · rename_i hrecent
    unfold memory view
    rw [hrecent]
    rfl
  · rename_i replay hrecent
    unfold memory view
    split
    · rename_i hover
      rw [hrecent, Option.filter_some, if_neg (by simpa using hover)]
    · rename_i hover
      rw [hrecent, Option.filter_some, if_pos (by simpa using hover)]

inductive Refreshed (now : Nanoseconds) : CallState → CallState → Prop
  | same (s) : Refreshed now s s
  | active (call : ActiveCall) : Refreshed now (.active call) (.active { call with created := now })

theorem refreshed_refreshActive : Refreshed now w.state (w.refreshActive now callId).state ∧
    (w.refreshActive now callId).memory = { w.memory with state := (w.refreshActive now callId).state } ∧
    (w.refreshActive now callId).calls = w.calls := by
  unfold refreshActive
  split
  · rename_i call hstate
    split
    · refine ⟨?_, rfl, rfl⟩
      rw [hstate]
      exact .active call
    · exact ⟨.same _, rfl, rfl⟩
  · exact ⟨.same _, rfl, rfl⟩

/-- **What happens before a request**: the record expires; the call is refreshed and goes on, or it is over. -/
theorem settle_spec {request : VoiceIpc.Request} : ∃ calls, (settle B w now request).calls = w.calls ++ calls ∧
    (∀ c ∈ calls, c.isCaused = false) ∧ (settle B w now request).recent = unexpired now w.recent ∧
    (settle B w now request).ttl = w.ttl ∧
    (¬ (w.refreshActive now (callIdOf request)).IsOver now → (∀ c ∈ calls, ¬ c.IsNativeError) →
      Refreshed now w.state (settle B w now request).state ∧ (settle B w now request).memory.attached = w.memory.attached ∧
      (settle B w now request).lastAckedEvent = w.lastAckedEvent) := by
  obtain ⟨hrefreshed, hmemory, hcalls⟩ : Refreshed now w.state (w.refreshActive now (callIdOf request)).state ∧
    (w.refreshActive now (callIdOf request)).memory = _ ∧ _ := refreshed_refreshActive
  unfold settle
  generalize w.refreshActive now (callIdOf request) = w₁ at hrefreshed hmemory hcalls ⊢
  obtain ⟨ended, hended, hquiet, hexpired⟩ : ∃ calls, (expire B w₁ now).calls = w₁.calls ++ calls ∧
      (∀ c ∈ calls, c.isCaused = false) ∧ (expire B w₁ now).memory =
        { (if w₁.IsOver now then w₁.memory.torn else w₁.memory) with recent := unexpired now w₁.recent } := by
    unfold expire
    by_cases hover : w₁.IsOver now
    · rw [if_pos hover, if_pos hover]
      obtain ⟨calls, hcalls, hquiet⟩ : ∃ calls, (teardownMedia B { w₁ with events := [], lastAckedEvent := none }).calls =
          w₁.calls ++ calls ∧ ∀ c ∈ calls, c.isCaused = false := not_isCaused_teardown B
      have htorn := memory_teardown B (w := w₁)
      have hrecent : (teardown B w₁).recent = w₁.recent := congrArg (fun m => m.recent) htorn
      refine ⟨calls, ?_, hquiet, ?_⟩
      · rw [← hcalls]
        exact forgetRecent_frame.2.2.1
      · rw [recent_forgetRecent, htorn, hrecent]
    · rw [if_neg hover, if_neg hover]
      exact ⟨[], forgetRecent_frame.2.2.1.trans (append_nil _).symm, (fun _ hc => by cases hc), recent_forgetRecent⟩
  have hsame : w₁.recent = w.recent ∧ w₁.ttl = w.ttl ∧ w₁.memory.attached = w.memory.attached ∧
      w₁.lastAckedEvent = w.lastAckedEvent :=
    ⟨congrArg (fun m => m.recent) hmemory, congrArg Memory.ttl hmemory, congrArg (fun m => m.attached) hmemory,
      congrArg Memory.acked hmemory⟩
  obtain ⟨hsameRecent, hsameTtl, hsameAttached, hsameAcked⟩ := hsame
  have hkept : (expire B w₁ now).recent = unexpired now w.recent ∧ (expire B w₁ now).ttl = w.ttl := by
    have hrecent : (expire B w₁ now).recent = unexpired now w₁.recent := congrArg (fun m => m.recent) hexpired
    have httl : (expire B w₁ now).ttl = w₁.ttl := by
      refine (congrArg Memory.ttl hexpired).trans ?_
      split <;> rfl
    exact ⟨by rw [hrecent, hsameRecent], httl.trans hsameTtl⟩
  obtain ⟨polls, hpolls, hunused, hcollected⟩ := collectNativeEvents_spec B (w := expire B w₁ now)
  refine ⟨ended ++ polls, ?_, fun c hc => ?_, ?_, ?_, fun htime hnone => ?_⟩
  · rw [hpolls, hended, hcalls, append_assoc]
  · exact (mem_append.1 hc).elim (hquiet c) (hunused c)
  · rcases hcollected with hview | ⟨-, hview⟩
    · exact (congrArg (fun m => m.recent) hview).trans hkept.1
    · exact (congrArg (fun m => m.recent) hview).trans hkept.1
  · rcases hcollected with hview | ⟨-, hview⟩
    · exact (congrArg Memory.ttl hview).trans hkept.2
    · exact (congrArg Memory.ttl hview).trans hkept.2
  · rw [if_neg htime] at hexpired
    rcases hcollected with hview | ⟨⟨c, hc, herror⟩, -⟩
    · rw [hexpired] at hview
      have hstate : (collectNativeEvents B (expire B w₁ now)).state = w₁.state := congrArg (fun m => m.state) hview
      refine ⟨?_, (congrArg (fun m => m.attached) hview).trans hsameAttached, (congrArg Memory.acked hview).trans hsameAcked⟩
      rw [hstate]
      exact hrefreshed
    · exact absurd herror (hnone c (mem_append_right _ hc))

theorem step_effect : ∃ quiet calls, (settle B w a.now a.request).calls = w.calls ++ quiet ∧
    (∀ c ∈ quiet, c.isCaused = false) ∧ (step B hashes w a).1.calls = w.calls ++ (quiet ++ calls) ∧
    (((step B hashes w a).1 = settle B w a.now a.request ∧ calls = []) ∨
      Effect hashes a (step B hashes w a).2 calls (settle B w a.now a.request).memory (step B hashes w a).1.memory) := by
  obtain ⟨quiet, hquiet, hunused, -⟩ := @settle_spec β H P B w a.now a.request
  cases hreplay : (settle B w a.now a.request).replayOf a.request with
  | some response =>
    have hstep : step B hashes w a = (settle B w a.now a.request, response) := by
      unfold step handle
      dsimp only
      rw [hreplay]
    refine ⟨quiet, [], hquiet, hunused, ?_, .inl ⟨by rw [hstep], rfl⟩⟩
    rw [hstep, hquiet, append_nil]
  | none =>
    have hstep : step B hashes w a = dispatch B hashes (settle B w a.now a.request) a.now a.random a.request := by
      unfold step handle
      dsimp only
      rw [hreplay]
    obtain ⟨calls, hcalls, heffect⟩ : Dispatches hashes a (settle B w a.now a.request) _ := dispatches B hashes
    rw [← hstep] at hcalls heffect
    exact ⟨quiet, calls, hquiet, hunused, by rw [hcalls, hquiet, append_assoc], .inr heffect⟩

end VoiceWorker

end Voice
end Crossgram
