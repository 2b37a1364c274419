import Crossgram.VoiceWorkerMedia
import Crossgram.VoiceWorkerSteps
/-!
# VoiceWorkerOwnership — every request is a row of moves (packages/voice-worker/src/worker.rs)

Each outcome of a request is a row of moves of the ledger.
-/
namespace Crossgram
namespace Voice

open Ownership (Event Lawful)
open VoiceIpc (FixedBytes Response DH_PUBLIC_BYTES)

namespace VoiceWorker

variable {β H P : Type} (B : MediaBackend β H P) (hashes : Hashes)

def ledger (w : VoiceWorker β H P) : Ledger where
  active := w.isActive
  handle := w.media.map (fun handle => handle.place)
  pcm := w.endpoint.map (fun endpoint => endpoint.pcm.place)
  calls := w.calls

variable {w : VoiceWorker β H P} {now : Nanoseconds} {request : VoiceIpc.Request} {callId : UInt64}

theorem ledger_refreshActive : (w.refreshActive now callId).ledger = w.ledger := by
  unfold refreshActive
  split
  · rename_i call hstate
    by_cases h : call.callId = callId ∧ now - call.created < w.ttl
    · rw [if_pos h]
      unfold ledger isActive
      dsimp only
      rw [hstate]
      rfl
    · rw [if_neg h]
  · rfl

theorem ledger_forgetRecent : (w.forgetRecent now).ledger = w.ledger := by
  unfold forgetRecent
  split
  · rfl
  · rename_i replay _
    by_cases h : replay.expires ≤ now
    · rw [if_pos h]
      rfl
    · rw [if_neg h]

/-! ## The end of a call -/

theorem ledger_teardownMedia : (teardownMedia B w).ledger = w.ledger.torn := by
  unfold teardownMedia closeEndpoint stopMedia ledger Ledger.torn isActive
  cases w.endpoint with
  | none =>
    cases w.media with
    | none        => simp [CallState.active?]
    | some handle => rfl
  | some endpoint =>
    cases w.media with
    | none        => simp [CallState.active?]
    | some handle => simp [CallState.active?]

theorem ledger_teardown : (teardown B w).ledger = w.ledger.torn := ledger_teardownMedia B

theorem moves_teardown : Moves w.ledger (teardown B w).ledger :=
  ledger_teardown B ▸ .single (.teardown _)

theorem moves_expire : Moves w.ledger (expire B w now).ledger := by
  unfold expire
  rw [ledger_forgetRecent]
  by_cases h : w.IsOver now
  · rw [if_pos h]
    exact moves_teardown B
  · rw [if_neg h]

/-! ## Events -/

theorem moves_queueEvent {event : MediaEvent} : Moves w.ledger (queueEvent B w callId event).ledger := by
  cases event with
  | nativeError =>
    unfold queueEvent
    rw [ledger_teardownMedia]
    exact .single (.teardown _)
  | outboundSignal signal =>
    unfold queueEvent
    dsimp only
    by_cases h : w.events.length = MAX_OUTBOUND_EVENTS
    · rw [if_pos h]
    · rw [if_neg h]
      exact .refl

theorem moves_polled : Moves w.ledger (polled B w).1.ledger := .single (.poll _ _ _)

theorem moves_collectNativeEvents : Moves w.ledger (collectNativeEvents B w).ledger := by
  unfold collectNativeEvents
  split
  · exact .refl
  · dsimp only
    split
    · exact (moves_polled B).trans (moves_queueEvent B)
    · exact moves_polled B

/-! ## One request -/

theorem ledger_of_inactive (h : w.state.active? = none) (state : CallState) (h' : state.active? = none)
    (recent : Option Replay) : ({ w with state, recent } : VoiceWorker β H P).ledger = w.ledger := by
  unfold ledger isActive
  rw [h, h']

theorem ledger_usedHandle {handle : Given H} (hmedia : w.media = some handle) (backend : β) (value : H) (c : BackendCall) :
    ({ w with backend, media := some { handle with value }, calls := w.calls ++ [c] } : VoiceWorker β H P).ledger =
      w.ledger.call c := by
  unfold ledger Ledger.call isActive
  rw [hmedia]
  rfl

theorem ledger_usedPcm {endpoint : MediaEndpoint P} (hendpoint : w.endpoint = some endpoint) (backend : β) (value : P)
    (c : BackendCall) :
    ({ w with
      backend, endpoint := some { endpoint with pcm := { endpoint.pcm with value } }
      calls := w.calls ++ [c] } : VoiceWorker β H P).ledger = w.ledger.call c := by
  unfold ledger Ledger.call isActive
  rw [hendpoint]
  rfl

theorem ledger_handle {handle : Given H} (hmedia : w.media = some handle) : w.ledger.handle = some handle.place :=
  congrArg (Option.map _) hmedia

variable {c : BackendCall}

theorem move_through {handle : Given H} (hc : c.IsThrough handle.place) (hmedia : w.media = some handle) :
    Move w.ledger (w.ledger.call c) := by
  cases c with
  | forwardSignal n signal =>
    obtain rfl : n = handle.place := hc
    exact .forward w.ledger _ signal (ledger_handle hmedia)
  | attachPcm n given =>
    cases given with
    | none =>
      obtain rfl : n = handle.place := hc
      exact .attachFails w.ledger _ (ledger_handle hmedia)
    | some m => cases hc
  | _ => cases hc

theorem move_on {endpoint : MediaEndpoint P} (hc : c.IsOn endpoint.pcm.place)
    (hendpoint : w.endpoint = some endpoint) : Move w.ledger (w.ledger.call c) := by
  have hpcm : w.ledger.pcm = some endpoint.pcm.place := congrArg (Option.map _) hendpoint
  cases c with
  | sendPcm m frame =>
    obtain rfl : m = endpoint.pcm.place := hc
    exact .send w.ledger _ frame hpcm
  | receivePcm m =>
    obtain rfl : m = endpoint.pcm.place := hc
    exact .receive w.ledger _ hpcm
  | _ => cases hc

theorem moves_failed {w' : VoiceWorker β H P} (hcall : w'.ledger = w.ledger.call c)
    (hmove : Move w.ledger (w.ledger.call c)) {response : Response} :
    Moves w.ledger (finishWithoutReplay B w' response).1.ledger := by
  unfold finishWithoutReplay
  rw [ledger_teardown, hcall]
  exact .tail (.single hmove) (.teardown _)

theorem moves_outcome {a : Arrival} {result : VoiceWorker β H P × Response} (h : Outcome B hashes a w result) :
    Moves w.ledger result.1.ledger := by
  cases h with
  | refused | recalled | acknowledged | acked => exact .refl
  | drawn hstate _ hdrawn _ =>
    exact (ledger_of_inactive (w := w) (by rw [hstate]; rfl) _ (drawn_callId hdrawn).2 w.recent) ▸ .refl
  | rejected _ _ hactive =>
    have hsame := ledger_of_inactive hactive .idle rfl
    exact (hsame _) ▸ .refl
  | startRefused hagreed =>
    have hsame := fun recent => ledger_of_inactive (agreed_callId hagreed).2.1 .idle rfl recent
    exact (hsame _) ▸ .refl
  | startFailed backend hagreed =>
    have hmove := Move.startFails w.ledger
    rw [← ledger_of_inactive (agreed_callId hagreed).2.1 .idle rfl none] at hmove ⊢
    exact .single (hmove _)
  | started backend handle hagreed _ _ _ =>
    refine .single (.start w.ledger _ ?_)
    unfold ledger isActive
    rw [(agreed_callId hagreed).2.1]
    rfl
  | @forwarded call requestId signal handle backend value _ _ hstate _ _ hmedia =>
    have hactive : w.isActive = true := by
      unfold isActive
      rw [hstate]
      rfl
    have hledger : w.ledger = ⟨true, some handle.place, w.endpoint.map (fun endpoint => endpoint.pcm.place), w.calls⟩ := by
      unfold ledger
      rw [hmedia, hactive]
      rfl
    rw [hledger]
    exact .single (.forward _ handle.place signal rfl)
  | @attached call requestId handle backend value pcm _ _ hendpoint hmedia =>
    have hledger : w.ledger = ⟨w.isActive, some handle.place, none, w.calls⟩ := by
      unfold ledger
      rw [hmedia, hendpoint]
      rfl
    rw [hledger]
    exact .single (.attach _ handle.place rfl rfl)
  | handleFailed backend value hc hmedia _ _ => exact moves_failed B (ledger_usedHandle hmedia backend value _) (move_through hc hmedia)
  | pcmFailed backend value hc hendpoint _ _ => exact moves_failed B (ledger_usedPcm hendpoint backend value _) (move_on hc hendpoint)
  | pcmUsed backend value _ hc hendpoint _ _ => exact .single (ledger_usedPcm hendpoint backend value _ ▸ move_on hc hendpoint)
  | closed _ _ => exact moves_teardown B
  | hungUp _ _ => exact moves_teardown B
  | polled _ _ => exact moves_collectNativeEvents B

theorem moves_dispatch {random : Option (FixedBytes DH_PUBLIC_BYTES)} (request : VoiceIpc.Request) :
    Moves w.ledger (dispatch B hashes w now random request).1.ledger :=
  moves_outcome B hashes (dispatch_outcome B hashes (a := ⟨now, random, request⟩))

theorem moves_settle : Moves w.ledger (settle B w now request).ledger := by
  unfold settle
  rw [← ledger_refreshActive (w := w)]
  exact (moves_expire B).trans (moves_collectNativeEvents B)

/-- **A request is a row of moves.** -/
theorem moves_handle {random : Option (FixedBytes DH_PUBLIC_BYTES)} :
    Moves w.ledger (handle B hashes w now random request).1.ledger := by
  unfold handle
  dsimp only
  split
  · exact moves_settle B
  · exact (moves_settle B).trans (moves_dispatch B hashes request)

end VoiceWorker

end Voice
end Crossgram
