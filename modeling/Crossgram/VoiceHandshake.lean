import Crossgram.VoiceWorkerRuns
/-!
# VoiceHandshake — how a call becomes active (packages/voice-worker/src/worker.rs)

A request goes on with the state as it is or ends it (`Continued`), draws a new secret, or completes a prepared call.  A run
of requests then says what lies behind every start of the backend, and what a rejected completion leaves.
-/
namespace Crossgram
namespace Voice

open List
open VoiceIpc (FixedBytes Response DH_PUBLIC_BYTES GA_HASH_BYTES PCM_CAPABILITY_BYTES PCM_FRAME_BYTES)

def BackendCall.IsStart : BackendCall → Prop
  | .start _ _ => True
  | _          => False

theorem BackendCall.IsThrough.not_isStart {c : BackendCall} {place : Nat} (h : c.IsThrough place) : ¬ c.IsStart := by
  intro hstart
  cases c with
  | start _ _ => exact h
  | _ => exact hstart

theorem BackendCall.IsOn.not_isStart {c : BackendCall} {place : Nat} (h : c.IsOn place) : ¬ c.IsStart := by
  intro hstart
  cases c with
  | start _ _ => exact h
  | _ => exact hstart

inductive Continues : CallState → CallState → Prop
  | same (s) : Continues s s
  | active (call call' : ActiveCall) : call'.callId = call.callId → call'.completedResponse = call.completedResponse →
      Continues (.active call) (.active call')
  | ended (s) : Continues s .idle

namespace Continues

variable {s s' s'' : CallState}

theorem trans (h : Continues s s') (h' : Continues s' s'') : Continues s s'' := by
  cases h' with
  | same => exact h
  | ended => exact .ended _
  | active call call' hid hresponse =>
    cases h with
    | same => exact .active _ _ hid hresponse
    | active call₀ _ hid₀ hresponse₀ => exact .active _ _ (hid.trans hid₀) (hresponse.trans hresponse₀)

theorem callId? {callId : UInt64} (h : Continues s s') (hid : s'.callId? = some callId) : s.callId? = some callId := by
  cases h with
  | same => exact hid
  | active call call' hcall _ =>
    cases hid
    exact congrArg some hcall.symm
  | ended => cases hid

theorem prepared (h : Continues s s') (hne : s' ≠ .idle) (hprepared : s'.active? = none) : s = s' := by
  cases h with
  | same => rfl
  | active => cases hprepared
  | ended => exact absurd rfl hne

end Continues

namespace VoiceWorker

variable {β H P : Type} (B : MediaBackend β H P) (hashes : Hashes)

structure Continued (w w' : VoiceWorker β H P) : Prop where
  state : Continues w.state w'.state
  recent : w'.recent = w.recent ∨ w'.recent = none ∨ w'.state = .idle
  calls : ∃ added, w'.calls = w.calls ++ added ∧ ∀ c ∈ added, ¬ c.IsStart

variable {w w' w'' : VoiceWorker β H P} {now : Nanoseconds} {callId : UInt64}

namespace Continued

theorem refl : Continued w w := ⟨.same _, .inl rfl, [], (append_nil _).symm, (fun _ hc => by cases hc)⟩

theorem trans (h : Continued w w') (h' : Continued w' w'') : Continued w w'' := by
  refine ⟨h.state.trans h'.state, ?_, ?_⟩
  · rcases h'.recent with hr' | hr' | hr'
    · rcases h.recent with hr | hr | hr
      · exact .inl (hr'.trans hr)
      · exact .inr (.inl (hr'.trans hr))
      · have hstate := h'.state
        rw [hr] at hstate
        refine .inr (.inr ?_)
        cases hidle : w''.state with
        | idle => rfl
        | _ =>
          rw [hidle] at hstate
          cases hstate
    · exact .inr (.inl hr')
    · exact .inr (.inr hr')
  · obtain ⟨added, hcalls, hstart⟩ := h.calls
    obtain ⟨added', hcalls', hstart'⟩ := h'.calls
    refine ⟨added ++ added', ?_, fun c hc => ?_⟩
    · rw [hcalls', hcalls, append_assoc]
    · exact (mem_append.1 hc).elim (hstart c) (hstart' c)

theorem of_eq (hstate : w'.state = w.state) (hrecent : w'.recent = w.recent) (hcalls : w'.calls = w.calls) : Continued w w' :=
  ⟨hstate ▸ .same _, .inl hrecent, [], hcalls.trans (append_nil _).symm, (fun _ hc => by cases hc)⟩

theorem of_call {c : BackendCall} (hstate : w'.state = w.state) (hrecent : w'.recent = w.recent)
    (hcalls : w'.calls = w.calls ++ [c]) (hc : ¬ c.IsStart) : Continued w w' := by
  refine ⟨hstate ▸ .same _, .inl hrecent, [c], hcalls, fun x hx => ?_⟩
  rw [mem_singleton.1 hx]
  exact hc

end Continued

theorem continued_teardownMedia : Continued w (teardownMedia B w) := by
  refine ⟨?_, .inr (.inr (state_teardownMedia B)), _, congrArg Ledger.calls (ledger_teardownMedia B), fun c hc => ?_⟩
  · rw [state_teardownMedia]
    exact .ended _
  · rcases Ledger.mem_givenBack hc with ⟨m, rfl⟩ | ⟨n, rfl⟩ <;> exact fun hstart => hstart

theorem continued_teardown : Continued w (teardown B w) := by
  have hcleared : Continued w { w with events := [], lastAckedEvent := none } := .of_eq rfl rfl rfl
  exact hcleared.trans (continued_teardownMedia B)

theorem continued_refreshActive : Continued w (w.refreshActive now callId) := by
  unfold refreshActive
  split
  · rename_i call hstate
    split
    · refine ⟨?_, .inl rfl, [], (append_nil _).symm, (fun _ hc => by cases hc)⟩
      rw [hstate]
      exact .active _ _ rfl rfl
    · exact .refl
  · exact .refl

theorem continued_forgetRecent : Continued w (w.forgetRecent now) := by
  unfold forgetRecent
  split
  · exact .refl
  · split
    · exact ⟨.same _, .inr (.inl rfl), [], (append_nil _).symm, (fun _ hc => by cases hc)⟩
    · exact .refl

theorem continued_expire : Continued w (expire B w now) := by
  unfold expire
  split
  · exact (continued_teardown B).trans continued_forgetRecent
  · exact continued_forgetRecent

theorem continued_queueEvent {event : MediaEvent} : Continued w (queueEvent B w callId event) := by
  unfold queueEvent
  cases event with
  | nativeError =>
    have hqueued : Continued w { w with
        events := [{ callId, id := w.nextEventId, event := .nativeError }]
        lastAckedEvent := none
        nextEventId := nextId w.nextEventId } := .of_eq rfl rfl rfl
    exact hqueued.trans (continued_teardownMedia B)
  | outboundSignal signal =>
    dsimp only
    split
    · exact .refl
    · exact .of_eq rfl rfl rfl

theorem continued_collectNativeEvents : Continued w (collectNativeEvents B w) := by
  have hpolled : Continued w (polled B w).1 := .of_call rfl rfl rfl (fun hstart => hstart)
  unfold collectNativeEvents
  split
  · exact .refl
  · dsimp only
    split
    · exact hpolled.trans (continued_queueEvent B)
    · exact hpolled

theorem continued_settle {request : VoiceIpc.Request} : Continued w (settle B w now request) :=
  (continued_refreshActive.trans (continued_expire B)).trans (continued_collectNativeEvents B)

theorem continued_failed {c : BackendCall} (hstate : w'.state = w.state) (hrecent : w'.recent = w.recent)
    (hcalls : w'.calls = w.calls ++ [c]) (hc : ¬ c.IsStart) : Continued w (teardown B w') :=
  (Continued.of_call hstate hrecent hcalls hc).trans (continued_teardown B)

theorem continued_hungUp {request : VoiceIpc.Request} {response : Response} :
    Continued w ((teardown B w).remember now request response).1 := by
  have hend := continued_teardown B (w := w)
  exact ⟨hend.state, .inr (.inr (state_teardownMedia B)), hend.calls⟩

end VoiceWorker

/-! ## Requests that begin something -/

namespace VoiceWorker

variable {β H P : Type} (B : MediaBackend β H P) (hashes : Hashes)

/-- What `start_backend` does with a call that was taken. -/
inductive Started (now : Nanoseconds) (request : VoiceIpc.Request) (config : MediaStartConfig) (isOutgoing : Bool)
    (response : Response) (w : VoiceWorker β H P) : VoiceWorker β H P × Response → Prop
  | refused : Started now request config isOutgoing response w (w.remember now request mediaUnavailable)
  | failed (backend) : Started now request config isOutgoing response w
      (({ w with backend, calls := w.calls ++ [.start config none] } : VoiceWorker β H P).remember now request mediaUnavailable)
  | started (backend handle) (call : ActiveCall) : call.callId = config.callId → call.completedResponse = response →
      config.server.validate = .ok () → config.server.isOutgoing = isOutgoing →
      B.start w.backend config = (backend, .ok handle) →
      Started now request config isOutgoing response w ({ w with
        backend, calls := w.calls ++ [.start config (some w.calls.length)]
        media := some { value := handle, place := w.calls.length }
        state := .active call }, response)

inductive Completes (now : Nanoseconds) (request : VoiceIpc.Request) (w : VoiceWorker β H P) :
    VoiceWorker β H P × Response → Prop
  | answered (call) : w.state = .active call → Completes now request w (w, call.completedResponse)
  | refused : Completes now request w (w, invalidState)
  | rejected : w.state.callId? = some (callIdOf request) → w.state.active? = none →
      Completes now request w (({ w with state := .idle } : VoiceWorker β H P).remember now request cryptoError)
  | agreed {sharedKey server isOutgoing response result} : Agreed hashes w.state request sharedKey server isOutgoing response →
      Started B now request { callId := callIdOf request, server, authKey := sharedKey } isOutgoing response
        { w with state := .idle } result → Completes now request w result

variable {w : VoiceWorker β H P} {now : Nanoseconds} {callId : UInt64}

inductive Dispatched (now : Nanoseconds) (random : Option (FixedBytes DH_PUBLIC_BYTES)) (request : VoiceIpc.Request)
    (w : VoiceWorker β H P) : VoiceWorker β H P × Response → Prop
  | continued {w' response} : Continued w w' → ¬ IsCompletion request → Dispatched now random request w (w', response)
  | draws {secret state response} : w.state = .idle → DhPrivate.generate random = .ok secret →
      Drawn hashes now secret request state → Dispatched now random request w ({ w with state }, response)
  | completes {result} : IsCompletion request → Completes B hashes now request w result →
      Dispatched now random request w result

theorem dispatch_spec {random : Option (FixedBytes DH_PUBLIC_BYTES)} (request : VoiceIpc.Request) :
    Dispatched B hashes now random request w (dispatch B hashes w now random request) := by
  have houtcome := dispatch_outcome B hashes (a := ⟨now, random, request⟩) (w := w)
  generalize dispatch B hashes w now random request = result at houtcome ⊢
  cases houtcome with
  | refused code hcode =>
    by_cases hcompletion : IsCompletion request
    · obtain rfl := hcode hcompletion
      exact .completes hcompletion .refused
    · exact .continued .refl hcompletion
  | recalled hrecalls =>
    by_cases hcompletion : IsCompletion request
    · generalize hv : w.view = v at hrecalls
      cases hrecalls with
      | completed _ hstate _ =>
        obtain rfl := hv
        exact .completes hcompletion (.answered _ hstate)
      | _ => cases hcompletion
    · exact .continued .refl hcompletion
  | acknowledged ha _ =>
    obtain rfl : request = _ := ha
    exact .continued .refl (fun hc => hc)
  | acked ha _ =>
    obtain rfl : request = _ := ha
    exact .continued (.of_eq rfl rfl rfl) (fun hc => hc)
  | drawn hidle hsecret hdrawn _ => exact .draws hidle hsecret hdrawn
  | rejected hcompletion hid hactive => exact .completes hcompletion (.rejected hid hactive)
  | startRefused hagreed => exact .completes (completion_of_agreed hagreed) (.agreed hagreed .refused)
  | startFailed backend hagreed => exact .completes (completion_of_agreed hagreed) (.agreed hagreed (.failed backend))
  | started backend handle hagreed hvalid hdirection hstart =>
    exact .completes (completion_of_agreed hagreed)
      (.agreed hagreed (.started backend handle _ rfl rfl hvalid hdirection hstart))
  | forwarded backend value _ ha hstate _ _ _ =>
    obtain rfl : request = _ := ha
    refine .continued ⟨?_, .inl rfl, _, rfl, fun c hc => ?_⟩ (fun hc => hc)
    · rw [hstate]
      exact .active _ _ rfl rfl
    · rw [mem_singleton.1 hc]
      exact fun hstart => hstart
  | attached backend value pcm ha _ _ _ =>
    obtain rfl : request = _ := ha
    exact .continued (.of_call rfl rfl rfl (fun hstart => hstart)) (fun hc => hc)
  | handleFailed backend value hc _ _ hnot => exact .continued (continued_failed B rfl rfl rfl hc.not_isStart) hnot
  | pcmFailed backend value hc _ _ hnot => exact .continued (continued_failed B rfl rfl rfl hc.not_isStart) hnot
  | pcmUsed backend value _ hc _ _ hnot =>
    exact .continued (.of_call rfl rfl rfl hc.not_isStart) (fun hcompletion => hnot hcompletion.isRemembered)
  | closed ha _ =>
    obtain rfl : request = _ := ha
    exact .continued (continued_teardown B) (fun hc => hc)
  | hungUp ha _ =>
    have ha : request = .hangup (callIdOf request) := ha
    exact .continued (continued_hungUp B) (by rw [ha]; exact fun hc => hc)
  | polled _ ha =>
    obtain rfl : request = _ := ha
    exact .continued (continued_collectNativeEvents B) (fun hc => hc)

variable {B hashes}

/-! ## What lies behind a state -/

structure Traced (hashes : Hashes) (arrivals : List Arrival) (w : VoiceWorker β H P) : Prop where
  drawn : ∀ callId, w.state.callId? = some callId → w.state.active? = none →
    ∃ a ∈ arrivals, ∃ secret, DhPrivate.generate a.random = .ok secret ∧ Drawn hashes a.now secret a.request w.state
  completed : ∀ call code, w.state = .active call → call.completedResponse ≠ .error code
  recent : ∀ replay, w.recent = some replay → w.state.callId? ≠ some (callIdOf replay.request)

namespace Traced

variable {w' : VoiceWorker β H P} {arrivals : List Arrival}

theorem continued (h : Traced hashes arrivals w) (hc : Continued w w') : Traced hashes arrivals w' := by
  refine ⟨fun callId hid hactive => ?_, fun call code hcall => ?_, fun replay hreplay => ?_⟩
  · have hsame : w.state = w'.state := hc.state.prepared (fun hidle => by rw [hidle] at hid; cases hid) hactive
    rw [← hsame] at hid hactive ⊢
    exact h.drawn callId hid hactive
  · have hstate := hc.state
    rw [hcall] at hstate
    cases hs : w.state with
    | active call' =>
      rw [hs] at hstate
      cases hstate with
      | same => exact h.completed _ code hs
      | active _ _ _ hresponse =>
        rw [hresponse]
        exact h.completed _ code hs
    | _ =>
      rw [hs] at hstate
      cases hstate
  · intro hid
    rcases hc.recent with hsame | hnone | hidle
    · rw [hsame] at hreplay
      exact h.recent replay hreplay (hc.state.callId? hid)
    · rw [hnone] at hreplay
      cases hreplay
    · rw [hidle] at hid
      cases hid

theorem mono (h : Traced hashes arrivals w) (a : Arrival) : Traced hashes (arrivals ++ [a]) w := by
  refine ⟨fun callId hid hactive => ?_, h.completed, h.recent⟩
  obtain ⟨b, hb, hdrawn⟩ := h.drawn callId hid hactive
  exact ⟨b, mem_append_left _ hb, hdrawn⟩

theorem idle (hidle : w.state = .idle) : Traced hashes arrivals w := by
  refine ⟨fun callId hid _ => ?_, fun call code hcall => ?_, fun replay _ hid => ?_⟩
  · rw [hidle] at hid
    cases hid
  · rw [hidle] at hcall
    cases hcall
  · rw [hidle] at hid
    cases hid

end Traced

/-- **What is behind a start**: the secret drawn for the call, the completion it answers, the configuration it gives. -/
inductive Bound (hashes : Hashes) (secret : DhPrivate) : VoiceIpc.Request → VoiceIpc.Request → MediaStartConfig → Prop
  | caller {callId gb server sharedKey} : InRange (Endian.value gb.val) →
      sharedKey = publicBytes (powBoundedExp (Endian.value gb.val) secret.exponent) →
      Bound hashes secret (.prepareCaller callId) (.completeCaller callId gb server) { callId, server, authKey := sharedKey }
  | recipient {callId ga server sharedKey gaHash fingerprint} : InRange (Endian.value ga.val) →
      sharedKey = publicBytes (powBoundedExp (Endian.value ga.val) secret.exponent) →
      hashes.gaHash ga = gaHash → hashes.keyFingerprint sharedKey = fingerprint →
      Bound hashes secret (.prepareRecipient callId gaHash) (.completeRecipient callId ga fingerprint server)
        { callId, server, authKey := sharedKey }

theorem bound_of_agreed {prepare request : VoiceIpc.Request} {s : CallState} {secret : DhPrivate} {created : Nanoseconds}
    {sharedKey : FixedBytes AUTH_KEY_BYTES} {config : VoiceIpc.MediaStartConfig} {isOutgoing : Bool} {response : Response}
    (hdrawn : Drawn hashes created secret prepare s) (h : Agreed hashes s request sharedKey config isOutgoing response) :
    Bound hashes secret prepare request { callId := callIdOf request, server := config, authKey := sharedKey } := by
  cases h with
  | caller hkey =>
    cases hdrawn
    obtain ⟨hin, hkey⟩ := deriveSharedKey_eq_ok.1 hkey
    exact .caller hin hkey
  | recipient hhash hkey =>
    cases hdrawn
    obtain ⟨hin, hkey⟩ := deriveSharedKey_eq_ok.1 hkey
    exact .recipient hin hkey hhash rfl

/-! ## One request -/

variable {a : Arrival} {arrivals : List Arrival}

inductive Handled (B : MediaBackend β H P) (hashes : Hashes) (a : Arrival) (w : VoiceWorker β H P) :
    VoiceWorker β H P × Response → Prop
  | replayed {response} (replay) : w.recent = some replay → callIdOf replay.request = callIdOf a.request →
      Handled B hashes a w (w, response)
  | dispatched {result} : (∀ replay, w.recent = some replay → callIdOf replay.request ≠ callIdOf a.request) →
      Dispatched B hashes a.now a.random a.request w result → Handled B hashes a w result

theorem step_spec : Handled B hashes a (settle B w a.now a.request) (step B hashes w a) := by
  unfold step handle replayOf
  dsimp only
  cases hrecent : (settle B w a.now a.request).recent with
  | none => exact .dispatched (fun replay hreplay => by rw [hrecent] at hreplay; cases hreplay) (dispatch_spec B hashes _)
  | some replay =>
    dsimp only
    by_cases hsame : replay.request = a.request
    · rw [if_pos hsame]
      exact .replayed replay hrecent (congrArg callIdOf hsame)
    · rw [if_neg hsame]
      by_cases hid : callIdOf replay.request = callIdOf a.request
      · rw [if_pos hid]
        exact .replayed replay hrecent hid
      · rw [if_neg hid]
        refine .dispatched (fun replay' hreplay' => ?_) (dispatch_spec B hashes _)
        rw [hrecent] at hreplay'
        cases hreplay'
        exact hid

theorem drawn_not_completion {now : Nanoseconds} {secret : DhPrivate} {request : VoiceIpc.Request} {s : CallState}
    (h : Drawn hashes now secret request s) : ¬ IsCompletion request := by
  cases h <;> exact fun hc => hc

theorem Traced.started {request : VoiceIpc.Request} {config : MediaStartConfig} {isOutgoing : Bool} {response : Response}
    {result : VoiceWorker β H P × Response} (hid : config.callId = callIdOf request)
    (hrecent : ∀ replay, w.recent = some replay → callIdOf replay.request ≠ callIdOf request)
    (hresponse : ∀ code, response ≠ .error code)
    (h : Started B now request config isOutgoing response { w with state := .idle } result) :
    Traced hashes arrivals result.1 := by
  cases h with
  | refused => exact .idle rfl
  | failed backend => exact .idle rfl
  | started backend handle call hcall hcompleted _ _ _ =>
    refine ⟨(fun callId _ hactive => by cases hactive), fun call' code hcall' => ?_, fun replay hreplay hsame => ?_⟩
    · cases hcall'
      rw [hcompleted]
      exact hresponse code
    · have hsame : call.callId = callIdOf replay.request := Option.some.inj hsame
      rw [hcall, hid] at hsame
      exact hrecent replay hreplay hsame.symm

/-- **Every request keeps what lies behind the state.** -/
theorem Traced.step (h : Traced hashes arrivals w) : Traced hashes (arrivals ++ [a]) (step B hashes w a).1 := by
  have hsettled : Traced hashes (arrivals ++ [a]) (settle B w a.now a.request) :=
    (h.continued (continued_settle B)).mono a
  have hspec : Handled B hashes a (settle B w a.now a.request) (VoiceWorker.step B hashes w a) := step_spec
  generalize VoiceWorker.step B hashes w a = result at hspec ⊢
  cases hspec with
  | replayed replay _ _ => exact hsettled
  | dispatched hrecent hdispatched =>
    cases hdispatched with
    | continued hcontinued _ => exact hsettled.continued hcontinued
    | draws hidle hsecret hdrawn =>
      obtain ⟨hid, hactive⟩ := drawn_callId hdrawn
      refine ⟨fun callId _ _ => ?_, fun call code hcall => ?_, fun replay hreplay => ?_⟩
      · exact ⟨a, mem_append_right _ (mem_singleton_self _), _, hsecret, hdrawn⟩
      · have hnone := (congrArg CallState.active? hcall).symm.trans hactive
        cases hnone
      · intro hsame
        have hsame := hid.symm.trans hsame
        exact hrecent replay hreplay (Option.some.inj hsame).symm
    | completes _ hcompletes =>
      cases hcompletes with
      | answered _ _ => exact hsettled
      | refused => exact hsettled
      | rejected _ _ => exact .idle rfl
      | agreed hagreed hstarted =>
        obtain ⟨-, -, hresponse⟩ := agreed_callId hagreed
        exact .started rfl hrecent hresponse hstarted

/-- Every start of the backend among the calls that were added is bound. -/
def StartsBound (hashes : Hashes) (arrivals : List Arrival) (request : VoiceIpc.Request) (w w' : VoiceWorker β H P) : Prop :=
  ∃ added, w'.calls = w.calls ++ added ∧ ∀ config given, .start config given ∈ added →
    ∃ b ∈ arrivals, ∃ secret, DhPrivate.generate b.random = .ok secret ∧ Bound hashes secret b.request request config

namespace StartsBound

variable {w' w'' : VoiceWorker β H P} {request : VoiceIpc.Request}

theorem of_continued (h : Continued w w') : StartsBound hashes arrivals request w w' := by
  obtain ⟨added, hcalls, hquiet⟩ := h.calls
  exact ⟨added, hcalls, fun config given hmem => absurd trivial (hquiet _ hmem)⟩

theorem of_eq (hcalls : w'.calls = w.calls) : StartsBound hashes arrivals request w w' :=
  ⟨[], hcalls.trans (append_nil _).symm, fun _ _ hmem => by cases hmem⟩

theorem of_start {config : MediaStartConfig} {given : Option Nat} (hcalls : w'.calls = w.calls ++ [.start config given])
    (hbound : ∃ b ∈ arrivals, ∃ secret, DhPrivate.generate b.random = .ok secret ∧ Bound hashes secret b.request request config) :
    StartsBound hashes arrivals request w w' := by
  refine ⟨_, hcalls, fun config' given' hmem => ?_⟩
  cases mem_singleton.1 hmem
  exact hbound

theorem trans (h : StartsBound hashes arrivals request w w') (h' : StartsBound hashes arrivals request w' w'') :
    StartsBound hashes arrivals request w w'' := by
  obtain ⟨added, hcalls, hbound⟩ := h
  obtain ⟨added', hcalls', hbound'⟩ := h'
  refine ⟨added ++ added', ?_, fun config given hmem => ?_⟩
  · rw [hcalls', hcalls, append_assoc]
  · exact (mem_append.1 hmem).elim (hbound config given) (hbound' config given)

end StartsBound

/-- **A start is bound** to the secret drawn for the call and to what the completion brought. -/
theorem startsBound_step {seen : List Arrival} (hseen : seen ⊆ arrivals)
    (hprepared : (settle B w a.now a.request).state.callId? = some (callIdOf a.request) →
      (settle B w a.now a.request).state.active? = none → ∃ b ∈ seen, ∃ secret,
        DhPrivate.generate b.random = .ok secret ∧ Drawn hashes b.now secret b.request (settle B w a.now a.request).state) :
    StartsBound hashes arrivals a.request w (VoiceWorker.step B hashes w a).1 := by
  have hsettle : Continued w (settle B w a.now a.request) := continued_settle B
  refine .trans (.of_continued hsettle) ?_
  have hspec : Handled B hashes a (settle B w a.now a.request) (VoiceWorker.step B hashes w a) := step_spec
  generalize VoiceWorker.step B hashes w a = result at hspec ⊢
  cases hspec with
  | replayed replay _ _ => exact .of_eq rfl
  | dispatched hrecent hdispatched =>
    cases hdispatched with
    | continued hcontinued _ => exact .of_continued hcontinued
    | draws _ _ _ => exact .of_eq rfl
    | completes _ hcompletes =>
      cases hcompletes with
      | answered _ _ => exact .of_eq rfl
      | refused => exact .of_eq rfl
      | rejected _ _ => exact .of_eq rfl
      | agreed hagreed hstarted =>
        obtain ⟨hid, hactive, -⟩ := agreed_callId hagreed
        obtain ⟨b, hb, secret, hsecret, hdrawn⟩ := hprepared hid hactive
        have hbound := bound_of_agreed hdrawn hagreed
        cases hstarted with
        | refused => exact .of_eq rfl
        | failed backend => exact .of_start rfl ⟨b, hseen hb, secret, hsecret, hbound⟩
        | started backend handle call _ _ _ _ _ => exact .of_start rfl ⟨b, hseen hb, secret, hsecret, hbound⟩

theorem Traced.starts (h : Traced hashes arrivals w) :
    StartsBound hashes arrivals a.request w (VoiceWorker.step B hashes w a).1 :=
  startsBound_step (List.Subset.refl arrivals) ((h.continued (continued_settle B)).drawn _)

/-- **A rejected completion ends the call.** -/
theorem Traced.rejected (h : Traced hashes arrivals w) (hcompletion : IsCompletion a.request)
    (hreply : (VoiceWorker.step B hashes w a).2 = cryptoError ∨ (VoiceWorker.step B hashes w a).2 = mediaUnavailable) :
    (VoiceWorker.step B hashes w a).1.state.callId? ≠ some (callIdOf a.request) := by
  have hsettled : Traced hashes arrivals (settle B w a.now a.request) := h.continued (continued_settle B)
  have hspec : Handled B hashes a (settle B w a.now a.request) (VoiceWorker.step B hashes w a) := step_spec
  generalize VoiceWorker.step B hashes w a = result at hspec hreply ⊢
  cases hspec with
  | replayed replay hreplay hid =>
    rw [← hid]
    exact hsettled.recent replay hreplay
  | dispatched hrecent hdispatched =>
    cases hdispatched with
    | continued _ hnot => exact absurd hcompletion hnot
    | draws _ _ hdrawn => exact absurd hcompletion (drawn_not_completion hdrawn)
    | completes _ hcompletes =>
      cases hcompletes with
      | answered call hcall =>
        rcases hreply with hreply | hreply
        · exact absurd hreply (hsettled.completed call _ hcall)
        · exact absurd hreply (hsettled.completed call _ hcall)
      | refused => rcases hreply with hreply | hreply <;> cases hreply
      | rejected _ _ => exact fun hid => by cases hid
      | @agreed sharedKey server isOutgoing response _ hagreed hstarted =>
        obtain ⟨-, -, hresponse⟩ := agreed_callId hagreed
        cases hstarted with
        | refused => exact fun hid => by cases hid
        | failed backend => exact fun hid => by cases hid
        | started backend handle call _ _ _ _ _ =>
          rcases hreply with hreply | hreply
          · exact absurd hreply (hresponse _)
          · exact absurd hreply (hresponse _)

theorem drawn_of_step (hbefore : w.state.callId? ≠ some callId)
    (hafter : (VoiceWorker.step B hashes w a).1.state.callId? = some callId) :
    callIdOf a.request = callId ∧ ∃ secret, DhPrivate.generate a.random = .ok secret ∧
      Drawn hashes a.now secret a.request (VoiceWorker.step B hashes w a).1.state := by
  have hsettled : (settle B w a.now a.request).state.callId? ≠ some callId :=
    fun hid => hbefore ((continued_settle B).state.callId? hid)
  have hspec : Handled B hashes a (settle B w a.now a.request) (VoiceWorker.step B hashes w a) := step_spec
  generalize VoiceWorker.step B hashes w a = result at hspec hafter ⊢
  cases hspec with
  | replayed replay _ _ => exact absurd hafter hsettled
  | dispatched hrecent hdispatched =>
    cases hdispatched with
    | continued hcontinued _ => exact absurd (hcontinued.state.callId? hafter) hsettled
    | draws _ hsecret hdrawn =>
      have hid := (drawn_callId hdrawn).1.symm.trans hafter
      exact ⟨Option.some.inj hid, _, hsecret, hdrawn⟩
    | completes _ hcompletes =>
      cases hcompletes with
      | answered _ _ => exact absurd hafter hsettled
      | refused => exact absurd hafter hsettled
      | rejected _ _ => cases hafter
      | @agreed sharedKey server isOutgoing response _ hagreed hstarted =>
        obtain ⟨hid, -, -⟩ := agreed_callId hagreed
        cases hstarted with
        | refused => cases hafter
        | failed backend => cases hafter
        | started backend handle call hcall _ _ _ _ =>
          have hsame : call.callId = callId := Option.some.inj hafter
          rw [← hsame, hcall] at hsettled
          exact absurd hid hsettled

/-! ## Runs -/

theorem traced_final (backend : β) (ttl : Nanoseconds) (arrivals : List Arrival) :
    Traced hashes arrivals (Runs.final (VoiceWorker.step B hashes) (withTtl backend ttl) arrivals) := by
  induction arrivals using List.reverseRecOn with
  | nil => exact .idle rfl
  | append_singleton arrivals a ih =>
    unfold Runs.final
    rw [foldl_append]
    exact ih.step

theorem drawn_in_run : ∀ (rest : List Arrival) (w : VoiceWorker β H P), w.state.callId? ≠ some callId →
    (Runs.final (VoiceWorker.step B hashes) w rest).state.callId? = some callId →
      ∃ c ∈ Runs.calls (VoiceWorker.step B hashes) w rest, callIdOf c.op.request = callId ∧
        ∃ secret, DhPrivate.generate c.op.random = .ok secret ∧ Drawn hashes c.op.now secret c.op.request c.after.state
  | [], w, hbefore, hafter => absurd hafter hbefore
  | a :: rest, w, hbefore, hafter => by
    by_cases hid : (VoiceWorker.step B hashes w a).1.state.callId? = some callId
    · exact ⟨Runs.callAt _ w a, mem_cons_self, drawn_of_step hbefore hid⟩
    · obtain ⟨c, hc, hdrawn⟩ := drawn_in_run rest _ hid hafter
      exact ⟨c, mem_cons_of_mem _ hc, hdrawn⟩

end VoiceWorker

end Voice
end Crossgram
