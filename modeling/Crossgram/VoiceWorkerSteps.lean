import Crossgram.VoiceWorker
/-!
# VoiceWorkerSteps — what one request makes of the worker (packages/voice-worker/src/worker.rs)

`Outcome` lists the workers that a dispatched request can leave, with the answer and the conditions under which it does.
What a request means for the media, the queue of events, the call and the remembered answers is read off this list.
-/
namespace Crossgram
namespace Voice

open VoiceIpc (FixedBytes Response DH_PUBLIC_BYTES GA_HASH_BYTES PCM_CAPABILITY_BYTES PCM_FRAME_BYTES MAX_SIGNAL_BYTES)

structure Arrival where
  now : Nanoseconds
  random : Option (FixedBytes DH_PUBLIC_BYTES)
  request : VoiceIpc.Request

inductive Drawn (hashes : Hashes) (now : Nanoseconds) (secret : DhPrivate) : VoiceIpc.Request → CallState → Prop
  | caller (callId) : Drawn hashes now secret (.prepareCaller callId)
      (.callerPrepared callId secret (publicValue secret) (hashes.gaHash (publicValue secret)) now)
  | recipient (callId gaHash) : Drawn hashes now secret (.prepareRecipient callId gaHash)
      (.recipientPrepared callId secret gaHash (publicValue secret) now)

inductive Agreed (hashes : Hashes) : CallState → VoiceIpc.Request → FixedBytes AUTH_KEY_BYTES → VoiceIpc.MediaStartConfig →
    Bool → Response → Prop
  | caller {callId secret ga gaHash created gb config sharedKey} : deriveSharedKey secret gb = .ok sharedKey →
      Agreed hashes (.callerPrepared callId secret ga gaHash created) (.completeCaller callId gb config) sharedKey config true
        (.callerCompleted ga (hashes.keyFingerprint sharedKey))
  | recipient {callId secret expectedGaHash gb created ga config sharedKey} : hashes.gaHash ga = expectedGaHash →
      deriveSharedKey secret ga = .ok sharedKey →
      Agreed hashes (.recipientPrepared callId secret expectedGaHash gb created)
        (.completeRecipient callId ga (hashes.keyFingerprint sharedKey) config) sharedKey config false
        (.recipientCompleted (hashes.keyFingerprint sharedKey))

def IsCompletion : VoiceIpc.Request → Prop
  | .completeCaller .. | .completeRecipient .. => True
  | _ => False

def IsRemembered : VoiceIpc.Request → Prop
  | .prepareCaller _ | .prepareRecipient _ _ | .completeCaller _ _ _ | .completeRecipient _ _ _ _ | .signal _ _ _
  | .attachMedia _ _ | .ackEvent _ _ | .hangup _ => True
  | _ => False

theorem IsCompletion.isRemembered {request : VoiceIpc.Request} (h : IsCompletion request) : IsRemembered request := by
  cases request with
  | completeCaller => trivial
  | completeRecipient => trivial
  | _ => cases h

def startedCall (hashes : Hashes) (a : Arrival) (sharedKey : FixedBytes AUTH_KEY_BYTES) (response : Response) : ActiveCall where
  callId := callIdOf a.request
  endpointKey := VoiceWorker.endpointKeyOf hashes sharedKey
  completedRequest := a.request
  completedResponse := response
  signalReplays := []
  created := a.now

def signalRecord (hashes : Hashes) (callId requestId : UInt64) (signal : List UInt8) : SignalReplay where
  callId := callId
  requestId := requestId
  signalDigest := hashes.sha256 signal
  response := .signalForwarded requestId

/-! ## The call that the worker knows -/

structure CallView where
  state : CallState
  attached : Option (UInt64 × FixedBytes PCM_CAPABILITY_BYTES)
  recent : Option Replay

inductive CallRecalls (hashes : Hashes) (v : CallView) : VoiceIpc.Request → Response → Prop
  | callerPrepared {callId secret ga gaHash created} : v.state = .callerPrepared callId secret ga gaHash created →
      CallRecalls hashes v (.prepareCaller callId) (.callerPrepared gaHash)
  | recipientPrepared {callId secret gaHash gb created} : v.state = .recipientPrepared callId secret gaHash gb created →
      CallRecalls hashes v (.prepareRecipient callId gaHash) (.recipientPrepared gb)
  | completed {call} : IsCompletion call.completedRequest → v.state = .active call →
      call.callId = callIdOf call.completedRequest → CallRecalls hashes v call.completedRequest call.completedResponse
  | forwarded {call requestId signal replay} : signal.length ≤ MAX_SIGNAL_BYTES → v.state = .active call →
      call.signalReplays.find? (fun replay => replay.callId = call.callId ∧ replay.requestId = requestId) = some replay →
      replay.signalDigest = hashes.sha256 signal → CallRecalls hashes v (.signal call.callId requestId signal) replay.response
  | attached {call requestId capability} : v.state = .active call → v.attached = some (requestId, capability) →
      CallRecalls hashes v (.attachMedia call.callId requestId) (.mediaAttached requestId capability)

def BackendCall.IsThrough (place : Nat) : BackendCall → Prop
  | .forwardSignal handle _   => handle = place
  | .attachPcm handle none    => handle = place
  | _                         => False

def BackendCall.IsOn (place : Nat) : BackendCall → Prop
  | .sendPcm pcm _ | .receivePcm pcm => pcm = place
  | _ => False

namespace VoiceWorker

variable {β H P : Type} (B : MediaBackend β H P) (hashes : Hashes)

def view (w : VoiceWorker β H P) : CallView where
  state := w.state
  attached := w.endpoint.map (fun endpoint => (endpoint.requestId, endpoint.capability))
  recent := w.recent

/-- **What a request makes of the worker that dispatches it.** -/
inductive Outcome (a : Arrival) (w : VoiceWorker β H P) : VoiceWorker β H P × Response → Prop
  | refused (code) : (IsCompletion a.request → code = .invalidState) → Outcome a w (w, .error code)
  | recalled {response} : CallRecalls hashes w.view a.request response → Outcome a w (w, response)
  | acknowledged {callId eventId} : a.request = .ackEvent callId eventId → w.lastAckedEvent = some (callId, eventId) →
      Outcome a w (w, .eventAcknowledged eventId)
  | acked {event events} : a.request = .ackEvent event.callId event.id → w.events = event :: events →
      Outcome a w ({ w with events, lastAckedEvent := some (event.callId, event.id) }, .eventAcknowledged event.id)
  | drawn {secret state response} : w.state = .idle → DhPrivate.generate a.random = .ok secret →
      Drawn hashes a.now secret a.request state → CallRecalls hashes { w.view with state } a.request response →
      Outcome a w ({ w with state }, response)
  | rejected : IsCompletion a.request → w.state.callId? = some (callIdOf a.request) → w.state.active? = none →
      Outcome a w (({ w with state := .idle } : VoiceWorker β H P).remember a.now a.request cryptoError)
  | startRefused {sharedKey server isOutgoing response} : Agreed hashes w.state a.request sharedKey server isOutgoing response →
      Outcome a w (({ w with state := .idle } : VoiceWorker β H P).remember a.now a.request mediaUnavailable)
  | startFailed {sharedKey server isOutgoing response} (backend) :
      Agreed hashes w.state a.request sharedKey server isOutgoing response → Outcome a w (({ w with
        state := .idle
        backend
        calls := w.calls ++ [.start { callId := callIdOf a.request, server, authKey := sharedKey } none] } :
          VoiceWorker β H P).remember a.now a.request mediaUnavailable)
  | started {sharedKey server isOutgoing response} (backend handle) :
      Agreed hashes w.state a.request sharedKey server isOutgoing response → server.validate = .ok () →
      server.isOutgoing = isOutgoing →
      B.start w.backend { callId := callIdOf a.request, server, authKey := sharedKey } = (backend, .ok handle) →
      Outcome a w ({ w with
        backend
        calls := w.calls ++
          [.start { callId := callIdOf a.request, server, authKey := sharedKey } (some w.calls.length)]
        media := some { value := handle, place := w.calls.length }
        state := .active (startedCall hashes a sharedKey response) }, response)
  | forwarded {call requestId signal handle} (backend value) : signal.length ≤ MAX_SIGNAL_BYTES →
      a.request = .signal call.callId requestId signal → w.state = .active call →
      call.signalReplays.find? (fun replay => replay.callId = call.callId ∧ replay.requestId = requestId) = none →
      call.signalReplays.length ≠ MAX_SIGNAL_REPLAY_ENTRIES → w.media = some handle → Outcome a w ({ w with
        backend
        media := some { handle with value }
        calls := w.calls ++ [.forwardSignal handle.place signal]
        state := .active { call with
          signalReplays := call.signalReplays ++ [signalRecord hashes call.callId requestId signal] } },
        .signalForwarded requestId)
  | attached {call requestId handle} (backend value pcm) : a.request = .attachMedia call.callId requestId →
      w.state = .active call → w.endpoint = none → w.media = some handle → Outcome a w ({ w with
        backend
        media := some { handle with value }
        calls := w.calls ++ [.attachPcm handle.place (some w.calls.length)]
        endpoint := some {
          requestId
          capability := endpointCapability hashes call.endpointKey call.callId requestId
          pcm := { value := pcm, place := w.calls.length } } },
        .mediaAttached requestId (endpointCapability hashes call.endpointKey call.callId requestId))
  | handleFailed {handle c} (backend value) : c.IsThrough handle.place → w.media = some handle →
      w.activeId? = some (callIdOf a.request) → ¬ IsCompletion a.request → Outcome a w (finishWithoutReplay B { w with
        backend
        media := some { handle with value }
        calls := w.calls ++ [c] } mediaUnavailable)
  | pcmFailed {endpoint c} (backend value) : c.IsOn endpoint.pcm.place → w.endpoint = some endpoint →
      w.activeId? = some (callIdOf a.request) → ¬ IsCompletion a.request → Outcome a w (finishWithoutReplay B { w with
        backend
        endpoint := some { endpoint with pcm := { endpoint.pcm with value } }
        calls := w.calls ++ [c] } mediaUnavailable)
  | pcmUsed {endpoint c} (backend value response) : c.IsOn endpoint.pcm.place → w.endpoint = some endpoint →
      w.activeId? = some (callIdOf a.request) → ¬ IsRemembered a.request → Outcome a w ({ w with
        backend
        endpoint := some { endpoint with pcm := { endpoint.pcm with value } }
        calls := w.calls ++ [c] }, response)
  | closed {callId capability} : a.request = .closeMedia callId capability → w.activeId? = some callId →
      Outcome a w (teardown B w, .mediaClosed)
  | hungUp : a.request = .hangup (callIdOf a.request) → w.state.callId? = some (callIdOf a.request) →
      Outcome a w ((teardown B w).remember a.now a.request .hungUp)
  | polled {callId} (response) : a.request = .pollEvent callId → Outcome a w (collectNativeEvents B w, response)

variable {w : VoiceWorker β H P} {a : Arrival} {callId : UInt64}

/-! ## What is known of an active call -/

theorem activeId?_of_active {call : ActiveCall} (h : w.state = .active call) : w.activeId? = some call.callId := by
  unfold activeId?
  rw [h]
  rfl

theorem callId?_of_activeId? (h : w.activeId? = some callId) : w.state.callId? = some callId := by
  unfold activeId? at h
  cases hstate : w.state with
  | active call =>
    rw [hstate] at h
    exact h
  | _ =>
    rw [hstate] at h
    cases h

theorem endpointFor_eq_some {capability : FixedBytes PCM_CAPABILITY_BYTES} {endpoint : MediaEndpoint P}
    (h : w.endpointFor callId capability = some endpoint) :
    w.activeId? = some callId ∧ w.endpoint = some endpoint ∧ endpoint.capability = capability := by
  unfold endpointFor at h
  by_cases hid : w.activeId? = some callId
  · rw [if_pos hid, Option.filter_eq_some_iff] at h
    exact ⟨hid, h.1, of_decide_eq_true h.2⟩
  · rw [if_neg hid] at h
    cases h

variable {s : CallState} {request : VoiceIpc.Request} {sharedKey : FixedBytes AUTH_KEY_BYTES}
  {config : VoiceIpc.MediaStartConfig} {isOutgoing : Bool} {response : Response}

variable {hashes} in
theorem agreed_callId
    (h : Agreed hashes s request sharedKey config isOutgoing response) :
    s.callId? = some (callIdOf request) ∧ s.active? = none ∧ ∀ code, response ≠ .error code := by
  cases h with
  | caller _ => exact ⟨rfl, rfl, (fun _ hc => by cases hc)⟩
  | recipient _ _ => exact ⟨rfl, rfl, (fun _ hc => by cases hc)⟩

variable {hashes} in
theorem drawn_callId {now : Nanoseconds} {secret : DhPrivate}
    (h : Drawn hashes now secret request s) : s.callId? = some (callIdOf request) ∧ s.active? = none := by
  cases h <;> exact ⟨rfl, rfl⟩

variable {hashes} in
theorem completion_of_agreed
    (h : Agreed hashes s request sharedKey config isOutgoing response) : IsCompletion request := by
  cases h <;> trivial

/-! ## The methods -/

theorem outcome_busyOrInvalid (hnot : ¬ IsCompletion a.request) : Outcome B hashes a w (w, w.busyOrInvalid callId) := by
  unfold busyOrInvalid
  split
  · exact .refused .invalidState (fun _ => rfl)
  · split
    · exact .refused .invalidState (fun _ => rfl)
    · exact .refused .busy (fun h => absurd h hnot)

theorem outcome_prepareCaller (ha : a.request = .prepareCaller callId) :
    Outcome B hashes a w (prepareCaller hashes w a.now a.random callId) := by
  have hnot : ¬ IsCompletion a.request := by rw [ha]; exact fun h => h
  unfold prepareCaller
  dsimp only
  split
  · rename_i activeId secret ga gaHash created hstate
    split
    · rename_i hsame
      exact .recalled (by rw [ha, ← hsame]; exact .callerPrepared hstate)
    · exact outcome_busyOrInvalid B hashes hnot
  · rename_i hstate
    split
    · exact .refused .crypto (fun h => absurd h hnot)
    · rename_i secret hsecret
      exact .drawn hstate hsecret (by rw [ha]; exact .caller callId) (by rw [ha]; exact .callerPrepared rfl)
  · exact outcome_busyOrInvalid B hashes hnot
  · exact outcome_busyOrInvalid B hashes hnot

theorem outcome_prepareRecipient {gaHash : FixedBytes GA_HASH_BYTES} (ha : a.request = .prepareRecipient callId gaHash) :
    Outcome B hashes a w (prepareRecipient w a.now a.random callId gaHash) := by
  have hnot : ¬ IsCompletion a.request := by rw [ha]; exact fun h => h
  unfold prepareRecipient
  dsimp only
  split
  · rename_i activeId secret expectedGaHash gb created hstate
    split
    · rename_i hsame
      exact .recalled (by rw [ha, ← hsame.1, ← hsame.2]; exact .recipientPrepared hstate)
    · exact outcome_busyOrInvalid B hashes hnot
  · rename_i hstate
    split
    · exact .refused .crypto (fun h => absurd h hnot)
    · rename_i secret hsecret
      exact .drawn hstate hsecret (by rw [ha]; exact .recipient callId gaHash) (by rw [ha]; exact .recipientPrepared rfl)
  · exact outcome_busyOrInvalid B hashes hnot
  · exact outcome_busyOrInvalid B hashes hnot

theorem outcome_startBackend
    (hagreed : Agreed hashes w.state a.request sharedKey config isOutgoing response) :
    Outcome B hashes a w (startBackend B hashes { w with state := .idle } a.now sharedKey (callIdOf a.request) config isOutgoing
      a.request response) := by
  unfold startBackend
  split_ifs with hrefused
  · exact .startRefused hagreed
  · have hvalid : config.validate = .ok () := by
      cases hvalidate : config.validate with
      | ok _ => rfl
      | error _ =>
        rw [hvalidate] at hrefused
        exact absurd (.inl rfl) hrefused
    have hdirection : config.isOutgoing = isOutgoing := Decidable.not_not.1 (fun hne => hrefused (.inr hne))
    dsimp only
    split
    · exact .startFailed _ hagreed
    · rename_i backend handle hstart
      exact .started backend handle hagreed hvalid hdirection hstart

theorem outcome_completed {call : ActiveCall} (hstate : w.state = .active call) (hcompletion : IsCompletion a.request) :
    Outcome B hashes a w (w, completedAnswer call (callIdOf a.request) a.request) := by
  unfold completedAnswer
  split
  · rename_i hsame
    refine .recalled ?_
    rw [← hsame.2]
    exact .completed (by rw [hsame.2]; exact hcompletion) hstate (by rw [hsame.2]; exact hsame.1)
  · exact .refused .invalidState (fun _ => rfl)

theorem outcome_completeCaller {gb : FixedBytes DH_PUBLIC_BYTES}
    (ha : a.request = .completeCaller callId gb config) :
    Outcome B hashes a w (completeCaller B hashes w a.now callId gb config) := by
  have hid : callIdOf a.request = callId := congrArg callIdOf ha
  have hcompletion : IsCompletion a.request := by rw [ha]; trivial
  unfold completeCaller
  dsimp -iota -proj only
  rw [← ha, ← hid]
  split
  · rename_i call hstate
    exact outcome_completed B hashes hstate hcompletion
  · rename_i activeId secret ga gaHash created hstate
    split
    · exact .refused .invalidState (fun _ => rfl)
    · rename_i hsame
      obtain rfl := Decidable.not_not.1 hsame
      split
      · exact .rejected hcompletion (by rw [hstate]; rfl) (by rw [hstate]; rfl)
      · rename_i sharedKey hkey
        refine outcome_startBackend B hashes ?_
        rw [hstate, ha]
        exact .caller hkey
  · exact .refused .invalidState (fun _ => rfl)
  · exact .refused .invalidState (fun _ => rfl)

theorem outcome_completeRecipient {ga : FixedBytes DH_PUBLIC_BYTES} {fingerprint : Int64}
    (ha : a.request = .completeRecipient callId ga fingerprint config) :
    Outcome B hashes a w (completeRecipient B hashes w a.now callId ga fingerprint config) := by
  have hid : callIdOf a.request = callId := congrArg callIdOf ha
  have hcompletion : IsCompletion a.request := by rw [ha]; trivial
  unfold completeRecipient
  dsimp -iota -proj only
  rw [← ha, ← hid]
  split
  · rename_i call hstate
    exact outcome_completed B hashes hstate hcompletion
  · rename_i activeId secret expectedGaHash gb created hstate
    split
    · exact .refused .invalidState (fun _ => rfl)
    · rename_i hsame
      obtain rfl := Decidable.not_not.1 hsame
      have hrejected : Outcome B hashes a w
          (({ w with state := .idle } : VoiceWorker β H P).remember a.now a.request cryptoError) :=
        .rejected hcompletion (by rw [hstate]; rfl) (by rw [hstate]; rfl)
      split
      · exact hrejected
      · exact hrejected
      · rename_i sharedKey hhash hkey
        split
        · exact hrejected
        · rename_i hfingerprint
          have hverified : hashes.gaHash ga = expectedGaHash := by
            unfold Hashes.verifyGaHash at hhash
            split at hhash
            · assumption
            · cases hhash
          refine outcome_startBackend B hashes ?_
          rw [hstate, ha, ← Decidable.not_not.1 hfingerprint]
          exact .recipient hverified hkey
  · exact .refused .invalidState (fun _ => rfl)
  · exact .refused .invalidState (fun _ => rfl)

theorem outcome_forwardSignal {requestId : UInt64} {signal : List UInt8} (ha : a.request = .signal callId requestId signal) :
    Outcome B hashes a w (forwardSignal B hashes w callId requestId signal) := by
  have hnot : ¬ IsCompletion a.request := by rw [ha]; exact fun h => h
  have hrefused : ∀ code, Outcome B hashes a w (w, .error code) := fun code => .refused code (fun h => absurd h hnot)
  unfold forwardSignal
  split
  · exact hrefused .invalidRequest
  · rename_i hlength
    have hlength := Nat.not_lt.1 hlength
    split
    · rename_i call hstate
      dsimp -iota -proj only
      split
      · exact hrefused .invalidState
      · rename_i hsame
        obtain rfl := Decidable.not_not.1 hsame
        split
        · rename_i replay hfind
          split
          · rename_i hdigest
            exact .recalled (by rw [ha]; exact .forwarded hlength hstate hfind hdigest)
          · exact hrefused .invalidState
        · rename_i hfind
          split
          · exact hrefused .invalidState
          · rename_i hroom
            split
            · exact hrefused .mediaUnavailable
            · rename_i handle hmedia
              rcases B.forwardSignal w.backend handle.value signal with ⟨⟨backend, value⟩, _ | _⟩
              · have hid : w.activeId? = some (callIdOf a.request) := by rw [ha]; exact activeId?_of_active hstate
                exact @Outcome.handleFailed _ _ _ B hashes a w handle (.forwardSignal handle.place signal) backend value rfl
                  hmedia hid hnot
              · exact .forwarded backend value hlength ha hstate hfind hroom hmedia
    · exact hrefused .invalidState

theorem outcome_attachMedia {requestId : UInt64} (ha : a.request = .attachMedia callId requestId) :
    Outcome B hashes a w (attachMedia B hashes w callId requestId) := by
  have hnot : ¬ IsCompletion a.request := by rw [ha]; exact fun h => h
  have hrefused : ∀ code, Outcome B hashes a w (w, .error code) := fun code => .refused code (fun h => absurd h hnot)
  unfold attachMedia
  split
  · rename_i call hstate
    dsimp -iota -proj only
    split
    · exact hrefused .invalidState
    · rename_i hsame
      obtain rfl := Decidable.not_not.1 hsame
      split
      · rename_i endpoint hendpoint
        split
        · rename_i hrequest
          refine .recalled ?_
          rw [ha, ← hrequest]
          exact .attached hstate (congrArg (Option.map _) hendpoint)
        · exact hrefused .invalidState
      · rename_i hendpoint
        split
        · exact hrefused .mediaUnavailable
        · rename_i handle hmedia
          rcases B.attachPcm w.backend handle.value with ⟨⟨backend, value⟩, _ | pcm⟩
          · have hid : w.activeId? = some (callIdOf a.request) := by rw [ha]; exact activeId?_of_active hstate
            exact @Outcome.handleFailed _ _ _ B hashes a w handle (.attachPcm handle.place none) backend value rfl hmedia hid hnot
          · exact .attached backend value pcm ha hstate hendpoint hmedia
  · exact hrefused .invalidState

theorem outcome_pcm {endpoint : MediaEndpoint P} {c : BackendCall} {capability : FixedBytes PCM_CAPABILITY_BYTES}
    (hfor : w.endpointFor (callIdOf a.request) capability = some endpoint) (hc : c.IsOn endpoint.pcm.place)
    (hnot : ¬ IsRemembered a.request) (backend : β) (value : P) :
    let used : VoiceWorker β H P :=
      { w with backend, endpoint := some { endpoint with pcm := { endpoint.pcm with value } }, calls := w.calls ++ [c] }
    Outcome B hashes a w (finishWithoutReplay B used mediaUnavailable) ∧ ∀ response, Outcome B hashes a w (used, response) := by
  obtain ⟨hid, hendpoint, -⟩ := endpointFor_eq_some hfor
  exact ⟨.pcmFailed backend value hc hendpoint hid (fun h => hnot h.isRemembered),
    fun response => .pcmUsed backend value response hc hendpoint hid hnot⟩

theorem outcome_sendPcm {capability : FixedBytes PCM_CAPABILITY_BYTES} {frame : FixedBytes PCM_FRAME_BYTES}
    (ha : a.request = .sendPcm callId capability frame) : Outcome B hashes a w (sendPcm B w callId capability frame) := by
  unfold sendPcm
  split
  · exact .refused .invalidState (fun _ => rfl)
  · rename_i endpoint hfor
    have hpcm := @outcome_pcm _ _ _ B hashes w a endpoint (.sendPcm endpoint.pcm.place frame) capability
      (by rw [ha]; exact hfor) rfl (by rw [ha]; exact fun h => h)
    rcases B.sendPcm w.backend endpoint.pcm.value frame with ⟨⟨backend, value⟩, _ | _⟩
    · exact (hpcm backend value).1
    · exact (hpcm backend value).2 _

theorem outcome_receivePcm {capability : FixedBytes PCM_CAPABILITY_BYTES} (ha : a.request = .receivePcm callId capability) :
    Outcome B hashes a w (receivePcm B w callId capability) := by
  unfold receivePcm
  split
  · exact .refused .invalidState (fun _ => rfl)
  · rename_i endpoint hfor
    have hpcm := @outcome_pcm _ _ _ B hashes w a endpoint (.receivePcm endpoint.pcm.place) capability
      (by rw [ha]; exact hfor) rfl (by rw [ha]; exact fun h => h)
    rcases B.receivePcm w.backend endpoint.pcm.value with ⟨⟨backend, value⟩, _ | _ | _⟩
    · exact (hpcm backend value).1
    · exact (hpcm backend value).2 _
    · exact (hpcm backend value).2 _

theorem outcome_ackEvent {eventId : UInt64} (ha : a.request = .ackEvent callId eventId) :
    Outcome B hashes a w (ackEvent w callId eventId) := by
  unfold ackEvent
  split
  · rename_i hacked
    exact .acknowledged ha hacked
  · split
    · exact .refused .invalidState (fun _ => rfl)
    · rename_i event events hevents
      split
      · exact .refused .invalidState (fun _ => rfl)
      · rename_i hfront
        obtain ⟨hcall, hid⟩ := not_or.1 hfront
        obtain rfl := Decidable.not_not.1 hcall
        obtain rfl := Decidable.not_not.1 hid
        exact .acked ha hevents

/-- **Every dispatched request has one of the outcomes.** -/
theorem dispatch_outcome : Outcome B hashes a w (dispatch B hashes w a.now a.random a.request) := by
  cases ha : a.request with
  | prepareCaller callId => exact outcome_prepareCaller B hashes ha
  | prepareRecipient callId gaHash => exact outcome_prepareRecipient B hashes ha
  | completeCaller callId gb config => exact outcome_completeCaller B hashes ha
  | completeRecipient callId ga fingerprint config => exact outcome_completeRecipient B hashes ha
  | signal callId requestId signal => exact outcome_forwardSignal B hashes ha
  | attachMedia callId requestId => exact outcome_attachMedia B hashes ha
  | sendPcm callId capability frame => exact outcome_sendPcm B hashes ha
  | receivePcm callId capability => exact outcome_receivePcm B hashes ha
  | ackEvent callId eventId => exact outcome_ackEvent B hashes ha
  | hangup callId =>
    unfold dispatch hangup
    dsimp only
    split
    · exact .refused .invalidState (fun _ => rfl)
    · rename_i activeId hactive
      split
      · exact .refused .invalidState (fun _ => rfl)
      · rename_i hsame
        obtain rfl := Decidable.not_not.1 hsame
        have hid : callIdOf a.request = callId := congrArg callIdOf ha
        have hhung : Outcome B hashes a w ((teardown B w).remember a.now a.request .hungUp) :=
          .hungUp (by rw [hid, ha]) (by rw [hid]; exact hactive)
        rwa [ha] at hhung
  | closeMedia callId capability =>
    unfold dispatch closeMedia
    dsimp only
    split
    · exact .refused .invalidState (fun _ => rfl)
    · rename_i endpoint hfor
      exact .closed ha (endpointFor_eq_some hfor).1
  | pollEvent callId =>
    unfold dispatch pollEvent
    dsimp only
    split <;> exact .polled _ ha

end VoiceWorker

end Voice
end Crossgram
