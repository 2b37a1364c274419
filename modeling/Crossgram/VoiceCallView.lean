import Crossgram.VoiceSignals
/-!
# VoiceCallView — what a request does to the call the worker knows (packages/voice-worker/src/worker.rs)

The state, the capability that was given out and the record of an answered request (`CallView`).  Before a request is
looked at the view only loses things (`ViewMoves`); the request itself keeps it, ends the call, records an answer, or adds
one thing made of the request and of the state it met (`ViewStep`).
-/
namespace Crossgram
namespace Voice

open VoiceIpc (FixedBytes Response DH_PUBLIC_BYTES GA_HASH_BYTES PCM_CAPABILITY_BYTES PCM_FRAME_BYTES)

inductive ViewMove : CallView → CallView → Prop
  | refreshed (v call created) : v.state = .active call → ViewMove v { v with state := .active { call with created } }
  | ended (v) : ViewMove v { v with state := .idle, attached := none }
  | forgot (v) : ViewMove v { v with recent := none }

abbrev ViewMoves : CallView → CallView → Prop := Relation.ReflTransGen ViewMove

inductive ViewStep (hashes : Hashes) (a : Arrival) (response : Response) : CallView → CallView → Prop
  | kept (v) : ViewStep hashes a response v v
  | ended (v) : ViewStep hashes a response v { v with state := .idle, attached := none }
  | hungUp (v expires) : v.state.callId? = some (callIdOf a.request) →
      ViewStep hashes a response v
        { state := .idle, attached := none, recent := some { request := a.request, response, expires } }
  | rejected (v expires) : v.state.callId? = some (callIdOf a.request) → v.state.active? = none →
      ViewStep hashes a response v
        { v with state := .idle, recent := some { request := a.request, response, expires } }
  | forwarded (v call requestId signal) : a.request = .signal call.callId requestId signal → v.state = .active call →
      ViewStep hashes a response v { v with
        state := .active { call with
          signalReplays := call.signalReplays ++ [signalRecord hashes call.callId requestId signal] } }
  | attached (v call requestId) : a.request = .attachMedia call.callId requestId → v.state = .active call →
      ViewStep hashes a response v { v with
        attached := some (requestId, endpointCapability hashes call.endpointKey call.callId requestId) }
  | drawn (v state secret) : v.state = .idle → DhPrivate.generate a.random = .ok secret →
      Drawn hashes a.now secret a.request state → ViewStep hashes a response v { v with state }
  | started (v sharedKey server isOutgoing) : Agreed hashes v.state a.request sharedKey server isOutgoing response →
      ViewStep hashes a response v { v with state := .active (startedCall hashes a sharedKey response) }

namespace VoiceWorker

variable {β H P : Type} (B : MediaBackend β H P) (hashes : Hashes)

variable {w w' : VoiceWorker β H P} {now : Nanoseconds} {callId : UInt64}

/-! ## Before a request -/

theorem view_refreshActive : ViewMoves w.view (w.refreshActive now callId).view := by
  unfold refreshActive
  split
  · rename_i call hstate
    split
    · exact .single (.refreshed w.view call now hstate)
    · exact .refl
  · exact .refl

theorem view_teardownMedia : (teardownMedia B w).view = { w.view with state := .idle, attached := none } := by
  unfold teardownMedia closeEndpoint stopMedia view
  cases w.endpoint <;> cases w.media <;> rfl

theorem view_teardown : (teardown B w).view = { w.view with state := .idle, attached := none } :=
  view_teardownMedia B

theorem view_expire : ViewMoves w.view (expire B w now).view := by
  have hforget : ∀ w : VoiceWorker β H P, ViewMoves w.view (w.forgetRecent now).view := by
    intro w
    unfold forgetRecent
    split
    · exact .refl
    · split
      · exact .single (.forgot w.view)
      · exact .refl
  unfold expire
  split
  · refine .head (.ended w.view) ?_
    rw [← view_teardown B]
    exact hforget _
  · exact hforget _

theorem view_collectNativeEvents : (collectNativeEvents B w).view = w.view ∨
    (collectNativeEvents B w).view = { w.view with state := .idle, attached := none } := by
  unfold collectNativeEvents
  split
  · exact .inl rfl
  · dsimp only
    split
    · unfold queueEvent
      split
      · exact .inr (view_teardownMedia B)
      · split <;> exact .inl rfl
    · exact .inl rfl

theorem view_settle {request : VoiceIpc.Request} : ViewMoves w.view (settle B w now request).view := by
  have hexpired : ViewMoves w.view (expire B (w.refreshActive now (callIdOf request)) now).view :=
    view_refreshActive.trans (view_expire B)
  unfold settle
  rcases view_collectNativeEvents B (w := expire B (w.refreshActive now (callIdOf request)) now) with hview | hview
  · rwa [hview]
  · rw [hview]
    exact hexpired.tail (.ended _)

/-! ## One request -/

variable {a : Arrival}

theorem view_endpoint {endpoint : MediaEndpoint P} (h : w.endpoint = some endpoint) (backend : β) (value : P)
    (calls : List BackendCall) :
    ({ w with backend, endpoint := some { endpoint with pcm := { endpoint.pcm with value } }, calls } :
      VoiceWorker β H P).view = w.view := by
  unfold view
  rw [h]
  rfl

theorem view_outcome {result : VoiceWorker β H P × Response} (h : Outcome B hashes a w result) :
    ViewStep hashes a result.2 w.view result.1.view := by
  cases h with
  | refused | recalled | acknowledged | acked => exact .kept _
  | @drawn secret state _ hidle hsecret hdrawn _ => exact .drawn w.view state secret hidle hsecret hdrawn
  | rejected _ hid hactive => exact .rejected w.view (a.now + w.ttl) hid hactive
  | startRefused hagreed => exact .rejected w.view (a.now + w.ttl) (agreed_callId hagreed).1 (agreed_callId hagreed).2.1
  | startFailed _ hagreed => exact .rejected w.view (a.now + w.ttl) (agreed_callId hagreed).1 (agreed_callId hagreed).2.1
  | started backend handle hagreed _ _ _ => exact .started w.view _ _ _ hagreed
  | @forwarded call requestId signal _ backend value _ ha hstate _ _ _ => exact .forwarded w.view call requestId signal ha hstate
  | @attached call requestId _ backend value pcm ha hstate _ _ => exact .attached w.view call requestId ha hstate
  | handleFailed backend value _ _ _ _ =>
    unfold finishWithoutReplay
    rw [view_teardown]
    exact .ended w.view
  | pcmFailed backend value _ hendpoint _ _ =>
    unfold finishWithoutReplay
    rw [view_teardown, view_endpoint hendpoint]
    exact .ended w.view
  | pcmUsed backend value _ _ hendpoint _ _ =>
    rw [view_endpoint hendpoint]
    exact .kept _
  | closed _ _ =>
    rw [view_teardown]
    exact .ended _
  | hungUp _ hid =>
    have hview : ((teardown B w).remember a.now a.request .hungUp).1.view = { (teardown B w).view with
        recent := some { request := a.request, response := .hungUp, expires := a.now + (teardown B w).ttl } } := rfl
    rw [hview, view_teardown]
    exact .hungUp _ _ hid
  | polled _ _ =>
    rcases view_collectNativeEvents B (w := w) with hview | hview
    · rw [hview]
      exact .kept _
    · rw [hview]
      exact .ended _

/-- **What a request does to the view it meets.** -/
theorem view_dispatch : ViewStep hashes a (dispatch B hashes w a.now a.random a.request).2 w.view
    (dispatch B hashes w a.now a.random a.request).1.view :=
  view_outcome B hashes (dispatch_outcome B hashes)

theorem step_view : (∃ replay, (settle B w a.now a.request).recent = some replay ∧
      callIdOf replay.request = callIdOf a.request ∧ (step B hashes w a).1 = settle B w a.now a.request) ∨
    ((∀ replay, (settle B w a.now a.request).recent = some replay → callIdOf replay.request ≠ callIdOf a.request) ∧
      step B hashes w a = dispatch B hashes (settle B w a.now a.request) a.now a.random a.request) := by
  unfold step handle replayOf
  dsimp only
  cases hrecent : (settle B w a.now a.request).recent with
  | none => exact .inr ⟨fun _ hc => (nomatch hc), rfl⟩
  | some replay =>
    dsimp only
    by_cases hsame : replay.request = a.request
    · rw [if_pos hsame]
      exact .inl ⟨replay, rfl, congrArg callIdOf hsame, rfl⟩
    · rw [if_neg hsame]
      by_cases hid : callIdOf replay.request = callIdOf a.request
      · rw [if_pos hid]
        exact .inl ⟨replay, rfl, hid, rfl⟩
      · rw [if_neg hid]
        refine .inr ⟨fun replay' hreplay => ?_, rfl⟩
        cases hreplay
        exact hid

end VoiceWorker

end Voice
end Crossgram
