import Crossgram.VoiceClients
import Crossgram.VoiceMemory
/-!
# VoiceSignalSends — signals that come in for a call (packages/bridge/src/voice/voice-worker-client.ts,
packages/voice-worker/src/worker.rs)

`sendSignalingData` for one call, one after another: each takes a request id, and a response that is lost before its
first byte is asked for once more.  Between them the worker handles any other requests.  A call passes on sixteen
signals; the replay list of the worker has no room for more.
-/
namespace Crossgram
namespace Voice

open Option List
open VoiceIpc (FixedBytes Response DH_PUBLIC_BYTES MAX_SIGNAL_BYTES)

/-- A `sendSignalingData` that waits for its response. -/
structure SignalSend where
  requestId : UInt64
  signal : List UInt8
  retried : Bool

/-- One that is over: whether a response came, and whether the promise resolved. -/
structure SignalSent where
  signal : List UInt8
  answered : Bool
  resolved : Bool
deriving DecidableEq

inductive Delivery
  | arrives
  | lost (beforeFirstByte : Bool)

structure SignalSender (β H P : Type) where
  worker : VoiceWorker β H P
  nextRequestId : UInt64
  sending : Option SignalSend
  sent : List SignalSent

inductive SenderAction
  | request (a : Arrival)
  | takeId
  | send (signal : List UInt8)
  | exchange (now : Nanoseconds) (random : Option (FixedBytes DH_PUBLIC_BYTES)) (delivery : Delivery)

def forwardedSignals (calls : List BackendCall) : List (List UInt8) :=
  calls.filterMap (fun c => match c with
    | .forwardSignal _ signal => some signal
    | _                       => none)

namespace SignalSender

variable {β H P : Type} (B : MediaBackend β H P) (hashes : Hashes) (callId : UInt64)

def start (worker : VoiceWorker β H P) (nextRequestId : UInt64) : SignalSender β H P :=
  { worker, nextRequestId, sending := none, sent := [] }

def finish (s : SignalSender β H P) (send : SignalSend) (answered resolved : Bool) : SignalSender β H P :=
  { s with sending := none, sent := s.sent ++ [{ signal := send.signal, answered, resolved }] }

def delivered (s : SignalSender β H P) (send : SignalSend) (response : Response) : Delivery → SignalSender β H P
  | .arrives              => s.finish send true (response = .signalForwarded send.requestId)
  | .lost beforeFirstByte =>
    if beforeFirstByte = true ∧ send.retried = false then { s with sending := some { send with retried := true } }
    else s.finish send false false

def step (s : SignalSender β H P) : SenderAction → Option (SignalSender β H P)
  | .request a => some { s with worker := (VoiceWorker.step B hashes s.worker a).1 }
  | .takeId => (VoiceWorkerSocketClient.takeId s.nextRequestId).map (fun requestId => { s with nextRequestId := requestId })
  | .send signal =>
    match s.sending, VoiceWorkerSocketClient.takeId s.nextRequestId with
    | some _, _             => none
    | none,   none          => some { s with sent := s.sent ++ [{ signal, answered := false, resolved := false }] }
    | none,   some requestId =>
      -- `encodeVoiceWorkerRequest` throws
      if signal.length > MAX_SIGNAL_BYTES then
        some { s with nextRequestId := requestId, sent := s.sent ++ [{ signal, answered := false, resolved := false }] }
      else some { s with nextRequestId := requestId, sending := some { requestId, signal, retried := false } }
  | .exchange now random delivery =>
    match s.sending with
    | none      => none
    | some send =>
      let served := VoiceWorker.step B hashes s.worker ⟨now, random, .signal callId send.requestId send.signal⟩
      some (({ s with worker := served.1 } : SignalSender β H P).delivered send served.2 delivery)

/-- **What a run is about**: the call stays active, its signals come from the client, and none is too long. -/
def StaysActive (s : SignalSender β H P) (action : SenderAction) : Prop :=
  (match action with
    | .request a   => ∀ requestId signal, a.request ≠ .signal callId requestId signal
    | .send signal => signal.length ≤ MAX_SIGNAL_BYTES
    | _            => True) ∧
  ∀ s', step B hashes callId s action = some s' → s'.worker.activeId? = some callId

def handled (s : SignalSender β H P) : List (List UInt8) :=
  s.sent.map (fun sent => sent.signal) ++ (s.sending.filter (fun send => send.retried)).toList.map (fun send => send.signal)

end SignalSender

namespace VoiceWorker

variable {β H P : Type} {B : MediaBackend β H P} {hashes : Hashes} {w : VoiceWorker β H P} {a : Arrival} {call : ActiveCall}

theorem forwardedSignals_append (calls calls' : List BackendCall) :
    forwardedSignals (calls ++ calls') = forwardedSignals calls ++ forwardedSignals calls' := filterMap_append

theorem forwardedSignals_quiet {calls : List BackendCall} (h : ∀ c ∈ calls, c.isCaused = false) : forwardedSignals calls = [] := by
  refine filterMap_eq_nil_iff.2 (fun c hc => ?_)
  have hcaused := h c hc
  cases c with
  | forwardSignal => cases hcaused
  | _ => rfl

theorem settled_active {now : Nanoseconds} {request : VoiceIpc.Request} (hstate : w.state = .active call) :
    (∃ created, (settle B w now request).state = .active { call with created }) ∨ (settle B w now request).state = .idle := by
  have hmoves : ViewMoves w.view (settle B w now request).view := view_settle B
  have hkept : ∀ v : CallView, ViewMoves w.view v → (∃ created, v.state = .active { call with created }) ∨ v.state = .idle := by
    intro v hv
    induction hv with
    | refl => exact .inl ⟨call.created, hstate⟩
    | tail _ hstep ih =>
      cases hstep with
      | refreshed call' created hcall =>
        rcases ih with ⟨created', hsame⟩ | hidle
        · rw [hsame] at hcall
          cases hcall
          exact .inl ⟨created, rfl⟩
        · rw [hidle] at hcall
          cases hcall
      | ended => exact .inr rfl
      | forgot => exact ih
  exact hkept _ hmoves

/-- **Another request** that leaves the call active leaves its signals. -/
theorem step_other (hstate : w.state = .active call) (hafter : (step B hashes w a).1.activeId? = some call.callId)
    (hother : ∀ requestId signal, a.request ≠ .signal call.callId requestId signal) :
    ∃ created period, (step B hashes w a).1.state = .active { call with created } ∧
      (step B hashes w a).1.calls = w.calls ++ period ∧ forwardedSignals period = [] := by
  obtain ⟨quiet, calls, hquiet, hunused, hcalls, heffect⟩ := @step_effect β H P B hashes w a
  have hforwarded : ∀ {created : Nanoseconds}, (step B hashes w a).1.state = .active { call with created } →
      forwardedSignals calls = [] → ∃ created period, (step B hashes w a).1.state = .active { call with created } ∧
        (step B hashes w a).1.calls = w.calls ++ period ∧ forwardedSignals period = [] := by
    intro created hstate' hnone
    refine ⟨created, quiet ++ calls, hstate', hcalls, ?_⟩
    rw [forwardedSignals_append, forwardedSignals_quiet hunused, hnone]
    rfl
  have hactive : ∀ {state : CallState}, (step B hashes w a).1.state = state → state.active? ≠ none := by
    intro state hstate' hnone
    unfold activeId? at hafter
    rw [hstate', hnone] at hafter
    cases hafter
  rcases @settled_active β H P B w call a.now a.request hstate with ⟨created, hsettled⟩ | hidle
  · rcases heffect with ⟨hsame, hnone⟩ | heffect
    · rw [hsame] at hforwarded
      rw [hsame]
      exact hforwarded hsettled (by rw [hnone]; rfl)
    · have hm : (settle B w a.now a.request).memory.state = .active { call with created } := hsettled
      have hm' : (step B hashes w a).1.memory.state = (step B hashes w a).1.state := rfl
      generalize (settle B w a.now a.request).memory = m at heffect hm
      generalize (step B hashes w a).1.memory = m' at heffect hm'
      cases heffect with
      | kept _ _ hcaused _ => exact hforwarded (hm' ▸ hm) (forwardedSignals_quiet hcaused)
      | polledError => exact absurd rfl (hactive hm'.symm)
      | closed => exact absurd rfl (hactive hm'.symm)
      | failed => exact absurd rfl (hactive hm'.symm)
      | hungUp => exact absurd rfl (hactive hm'.symm)
      | rejected => exact absurd rfl (hactive hm'.symm)
      | acknowledged => exact hforwarded (hm' ▸ hm) rfl
      | forwarded _ call' requestId signal _ _ hrequest hcall =>
        rw [hm] at hcall
        cases hcall
        exact absurd hrequest (hother requestId signal)
      | attached => exact hforwarded (hm' ▸ hm) rfl
      | callerDrawn => exact absurd rfl (hactive hm'.symm)
      | recipientDrawn => exact absurd rfl (hactive hm'.symm)
      | started _ _ _ _ _ hagreed =>
        have hnone := (agreed_callId hagreed).2.1
        rw [hm] at hnone
        cases hnone
  · rcases heffect with ⟨hsame, -⟩ | heffect
    · exact absurd rfl (hactive (hsame ▸ hidle))
    · have hm : (settle B w a.now a.request).memory.state = .idle := hidle
      have hm' : (step B hashes w a).1.memory.state = (step B hashes w a).1.state := rfl
      generalize (settle B w a.now a.request).memory = m at heffect hm
      generalize (step B hashes w a).1.memory = m' at heffect hm'
      cases heffect with
      | kept => exact absurd rfl (hactive (hm'.symm.trans hm))
      | acknowledged => exact absurd rfl (hactive (hm'.symm.trans hm))
      | forwarded _ _ _ _ _ _ _ hcall =>
        rw [hm] at hcall
        cases hcall
      | attached _ _ _ _ _ _ hcall =>
        rw [hm] at hcall
        cases hcall
      | started _ _ _ _ _ hagreed =>
        have hid := (agreed_callId hagreed).1
        rw [hm] at hid
        cases hid
      | _ => exact absurd rfl (hactive hm'.symm)

inductive SignalStep (hashes : Hashes) (call : ActiveCall) (requestId : UInt64) (signal : List UInt8) :
    Response → List SignalReplay → List (List UInt8) → Prop
  | again (replay) : call.signalReplays.find? (fun replay => replay.callId = call.callId ∧ replay.requestId = requestId) =
      some replay → SignalStep hashes call requestId signal
        (if replay.signalDigest = hashes.sha256 signal then replay.response else invalidState) call.signalReplays []
  | full : call.signalReplays.find? (fun replay => replay.callId = call.callId ∧ replay.requestId = requestId) = none →
      call.signalReplays.length = MAX_SIGNAL_REPLAY_ENTRIES →
      SignalStep hashes call requestId signal invalidState call.signalReplays []
  | passedOn : call.signalReplays.find? (fun replay => replay.callId = call.callId ∧ replay.requestId = requestId) = none →
      call.signalReplays.length ≠ MAX_SIGNAL_REPLAY_ENTRIES → SignalStep hashes call requestId signal (.signalForwarded requestId)
        (call.signalReplays ++ [signalRecord hashes call.callId requestId signal]) [signal]

/-- **A signal** that leaves the call active, when the backend accepts it. -/
theorem step_signal {requestId : UInt64} {signal : List UInt8} (hstate : w.state = .active call)
    (hafter : (step B hashes w a).1.activeId? = some call.callId) (hinv : w.ledger.Inv)
    (hrecent : ∀ replay, w.recent = some replay → w.state.callId? ≠ some (callIdOf replay.request))
    (haccepts : ∀ backend handle signal, (B.forwardSignal backend handle signal).2 = .ok ())
    (hlength : signal.length ≤ MAX_SIGNAL_BYTES) (ha : a.request = .signal call.callId requestId signal) :
    ∃ created replays period, (step B hashes w a).1.state = .active { call with signalReplays := replays, created } ∧
      (step B hashes w a).1.calls = w.calls ++ period ∧
      SignalStep hashes call requestId signal (step B hashes w a).2 replays (forwardedSignals period) := by
  obtain ⟨quiet, hquiet, hunused, hrecord, -⟩ := @settle_spec β H P B w a.now a.request
  have hreplay : (settle B w a.now a.request).replayOf a.request = none := by
    refine replayOf_eq_none (fun replay hreplay hid => ?_)
    rw [hrecord] at hreplay
    refine hrecent replay (filter_eq_some_iff.1 hreplay).1 ?_
    rw [hid, hstate, ha]
    rfl
  have hstep : step B hashes w a = forwardSignal B hashes (settle B w a.now a.request) call.callId requestId signal := by
    unfold step handle
    dsimp only
    rw [hreplay]
    dsimp only
    generalize settle B w a.now a.request = settled
    rw [ha]
    rfl
  have hmedia := @ledger_settle β H P B w a.now a.request hinv
  rcases @settled_active β H P B w call a.now a.request hstate with ⟨created, hsettled⟩ | hidle
  · have hhandle : (settle B w a.now a.request).media.isSome = true := by
      rw [hmedia]
      unfold isActive
      rw [hsettled]
      rfl
    obtain ⟨handle, hhandle⟩ := isSome_iff_exists.1 hhandle
    rw [hstep]
    clear hstep hafter hreplay hmedia
    generalize settle B w a.now a.request = settled at hquiet hsettled hhandle ⊢
    have hkept : forwardedSignals quiet = [] := forwardedSignals_quiet hunused
    unfold forwardSignal
    rw [if_neg (Nat.not_lt.2 hlength), hsettled]
    dsimp only
    rw [if_neg (fun hne => hne rfl)]
    cases hfind : call.signalReplays.find? (fun replay => replay.callId = call.callId ∧ replay.requestId = requestId) with
    | some replay =>
      refine ⟨created, call.signalReplays, quiet, hsettled, hquiet, ?_⟩
      rw [hkept]
      exact .again replay hfind
    | none =>
      dsimp only
      by_cases hfull : call.signalReplays.length = MAX_SIGNAL_REPLAY_ENTRIES
      · rw [if_pos hfull]
        refine ⟨created, call.signalReplays, quiet, hsettled, hquiet, ?_⟩
        rw [hkept]
        exact .full hfind hfull
      · rw [if_neg hfull, hhandle]
        obtain ⟨backend, value, hforward⟩ : ∃ backend value,
            B.forwardSignal settled.backend handle.value signal = ((backend, value), .ok ()) :=
          ⟨_, _, Prod.ext rfl (haccepts settled.backend handle.value signal)⟩
        simp only [hforward]
        refine ⟨created, _, quiet ++ [.forwardSignal handle.place signal], rfl, ?_, ?_⟩
        · rw [hquiet, append_assoc]
        · rw [forwardedSignals_append, hkept]
          exact .passedOn hfind hfull
  · have hnone : (step B hashes w a).1.activeId? = none := by
      rw [hstep]
      unfold forwardSignal
      rw [if_neg (Nat.not_lt.2 hlength), hidle]
      exact activeId?_eq_none (congrArg CallState.active? hidle)
    exact absurd hafter (fun hactive => by rw [hnone] at hactive; cases hactive)

end VoiceWorker

namespace SignalSender

open VoiceWorker

variable {β H P : Type} {B : MediaBackend β H P} {hashes : Hashes}

def room (call : ActiveCall) : Nat := MAX_SIGNAL_REPLAY_ENTRIES - call.signalReplays.length

structure Fits (hashes : Hashes) (call : ActiveCall) (s : SignalSender β H P) (replays : List SignalReplay) : Prop where
  length : replays.length = call.signalReplays.length + min (room call) s.handled.length
  below : ∀ replay ∈ replays, replay.requestId.toNat ≤ s.nextRequestId.toNat
  short : ∀ send, s.sending = some send → send.signal.length ≤ MAX_SIGNAL_BYTES
  drawn : ∀ send, s.sending = some send → send.requestId.toNat ≤ s.nextRequestId.toNat
  fresh : ∀ send, s.sending = some send → send.retried = false →
    replays.find? (fun replay => replay.callId = call.callId ∧ replay.requestId = send.requestId) = none
  retried : ∀ send, s.sending = some send → send.retried = true →
    replays.find? (fun replay => replay.callId = call.callId ∧ replay.requestId = send.requestId) =
      if s.handled.length ≤ room call then some (signalRecord hashes call.callId send.requestId send.signal) else none

/-- **The invariant of the sends**, from a worker `w` at which the call was active. -/
structure Inv (B : MediaBackend β H P) (hashes : Hashes) (backend : β) (ttl : Nanoseconds) (w : VoiceWorker β H P)
    (call : ActiveCall) (s : SignalSender β H P) : Prop where
  reached : ∃ arrivals, s.worker = Runs.final (VoiceWorker.step B hashes) (withTtl backend ttl) arrivals
  active : ∃ replays created, s.worker.state = .active { call with signalReplays := replays, created } ∧ Fits hashes call s replays
  received : ∃ period, s.worker.calls = w.calls ++ period ∧ forwardedSignals period = s.handled.take (room call)
  sent : ∀ i x, s.sent[i]? = some x → (x.resolved = true ↔ x.answered = true ∧ i < room call)

variable {backend : β} {ttl : Nanoseconds} {w : VoiceWorker β H P} {call : ActiveCall} {s s' : SignalSender β H P}

variable {a : Arrival}

theorem reached_step
    (h : ∃ arrivals, s.worker = Runs.final (VoiceWorker.step B hashes) (withTtl backend ttl) arrivals) :
    ∃ arrivals, (VoiceWorker.step B hashes s.worker a).1 = Runs.final (VoiceWorker.step B hashes) (withTtl backend ttl) arrivals := by
  obtain ⟨arrivals, harrivals⟩ := h
  refine ⟨arrivals ++ [a], ?_⟩
  unfold Runs.final at harrivals ⊢
  rw [foldl_append, ← harrivals]
  rfl

theorem Fits.moved {replays : List SignalReplay} (h : Fits hashes call s replays) (hsending : s'.sending = s.sending)
    (hsent : s'.sent = s.sent) (hnext : s.nextRequestId.toNat ≤ s'.nextRequestId.toNat) : Fits hashes call s' replays := by
  have hhandled : s'.handled = s.handled := by
    unfold handled
    rw [hsending, hsent]
  refine ⟨?_, fun replay hreplay => Nat.le_trans (h.below replay hreplay) hnext, fun send hsend => ?_, fun send hsend => ?_,
    fun send hsend => ?_, fun send hsend => ?_⟩
  · rw [hhandled]
    exact h.length
  · exact h.short send (hsending ▸ hsend)
  · exact Nat.le_trans (h.drawn send (hsending ▸ hsend)) hnext
  · exact h.fresh send (hsending ▸ hsend)
  · rw [hhandled]
    exact h.retried send (hsending ▸ hsend)

theorem Inv.request (h : Inv B hashes backend ttl w call s)
    (hother : ∀ requestId signal, a.request ≠ .signal call.callId requestId signal)
    (hafter : (VoiceWorker.step B hashes s.worker a).1.activeId? = some call.callId) :
    Inv B hashes backend ttl w call { s with worker := (VoiceWorker.step B hashes s.worker a).1 } := by
  obtain ⟨replays, created, hstate, hfits⟩ := h.active
  obtain ⟨period, hperiod, hreceived⟩ := h.received
  obtain ⟨created', added, hstate', hcalls, hnone⟩ := step_other hstate hafter hother
  refine ⟨reached_step h.reached, ⟨replays, created', hstate', hfits.moved rfl rfl (Nat.le_refl _)⟩,
    ⟨period ++ added, ?_, ?_⟩, h.sent⟩
  · dsimp only
    rw [hcalls, hperiod, append_assoc]
  · rw [forwardedSignals_append, hreceived, hnone, append_nil]
    rfl

variable {send : SignalSend}

theorem handled_of_sending (hsend : s.sending = some send) :
    s.handled = s.sent.map (fun sent => sent.signal) ++ if send.retried = true then [send.signal] else [] := by
  unfold handled
  rw [hsend, filter_some]
  cases send.retried <;> rfl

structure Exchanged (hashes : Hashes) (call : ActiveCall) (s : SignalSender β H P) (send : SignalSend) (response : Response)
    (replays : List SignalReplay) (forwarded : List (List UInt8)) : Prop where
  length : replays.length = call.signalReplays.length + min (room call) (s.sent.length + 1)
  below : ∀ replay ∈ replays, replay.requestId.toNat ≤ s.nextRequestId.toNat
  found : replays.find? (fun replay => replay.callId = call.callId ∧ replay.requestId = send.requestId) =
    if s.sent.length + 1 ≤ room call then some (signalRecord hashes call.callId send.requestId send.signal) else none
  received : s.handled.take (room call) ++ forwarded =
    (s.sent.map (fun sent => sent.signal) ++ [send.signal]).take (room call)
  resolved : response = .signalForwarded send.requestId ↔ s.sent.length < room call

variable {response : Response}

theorem Fits.exchanged {replays replays' : List SignalReplay} {created : Nanoseconds}
    {forwarded : List (List UInt8)} (h : Fits hashes call s replays) (hsend : s.sending = some send)
    (hbound : call.signalReplays.length ≤ MAX_SIGNAL_REPLAY_ENTRIES)
    (hstep : SignalStep hashes { call with signalReplays := replays, created } send.requestId send.signal response replays'
      forwarded) : Exchanged hashes call s send response replays' forwarded := by
  have hroom : room call = MAX_SIGNAL_REPLAY_ENTRIES - call.signalReplays.length := rfl
  have hhandled := handled_of_sending hsend
  have hlength := h.length
  have hbase : (s.sent.map (fun sent => sent.signal)).length = s.sent.length := length_map _
  have hinvalid : invalidState ≠ .signalForwarded send.requestId := fun hc => by cases hc
  cases hretried : send.retried with
  | false =>
    rw [hretried, if_neg Bool.false_ne_true, append_nil] at hhandled
    rw [hhandled, hbase] at hlength
    have hfresh := h.fresh send hsend hretried
    cases hstep with
    | again replay hfind => exact absurd (hfresh.symm.trans hfind) (fun hc => by cases hc)
    | full hfind hfull =>
      have hfull : replays.length = MAX_SIGNAL_REPLAY_ENTRIES := hfull
      have hover : room call ≤ s.sent.length := by omega
      refine ⟨by omega, h.below, ?_, ?_, ?_⟩
      · rw [hfresh, if_neg (by omega)]
      · rw [hhandled, append_nil, take_append_of_le_length (by omega)]
      · exact ⟨fun hc => absurd hc hinvalid, fun hlt => absurd hlt (by omega)⟩
    | passedOn hfind hroomy =>
      have hroomy : replays.length ≠ MAX_SIGNAL_REPLAY_ENTRIES := hroomy
      have hlt : s.sent.length < room call := by omega
      refine ⟨?_, fun replay hreplay => ?_, ?_, ?_, ⟨fun _ => hlt, fun _ => rfl⟩⟩
      · rw [List.length_append, hlength, List.length_singleton]
        omega
      · rcases mem_append.1 hreplay with hreplay | hreplay
        · exact h.below replay hreplay
        · rw [mem_singleton.1 hreplay]
          exact h.drawn send hsend
      · rw [find?_append, hfresh, if_pos (Nat.succ_le_of_lt hlt), none_or]
        exact find?_cons_of_pos (decide_eq_true ⟨rfl, rfl⟩)
      · rw [hhandled, take_of_length_le (by omega), take_of_length_le (by rw [List.length_append, hbase]; exact hlt)]
  | true =>
    rw [hretried, if_pos rfl] at hhandled
    have hcount : s.handled.length = s.sent.length + 1 := by rw [hhandled, List.length_append, hbase]; rfl
    rw [hcount] at hlength
    have hfound := h.retried send hsend hretried
    rw [hcount] at hfound
    cases hstep with
    | again replay hfind =>
      have hfind : replays.find? (fun replay => replay.callId = call.callId ∧ replay.requestId = send.requestId) = some replay :=
        hfind
      rw [hfound] at hfind
      split at hfind
      · rename_i hle
        cases hfind
        refine ⟨hlength, h.below, hfound, by rw [hhandled, append_nil], ?_⟩
        have hdigest : (signalRecord hashes call.callId send.requestId send.signal).signalDigest = hashes.sha256 send.signal := rfl
        rw [if_pos hdigest]
        exact ⟨fun _ => hle, fun _ => rfl⟩
      · cases hfind
    | full hfind hfull =>
      have hfull : replays.length = MAX_SIGNAL_REPLAY_ENTRIES := hfull
      have hfind : replays.find? (fun replay => replay.callId = call.callId ∧ replay.requestId = send.requestId) = none := hfind
      refine ⟨hlength, h.below, hfound, by rw [hhandled, append_nil], ?_⟩
      rw [hfound] at hfind
      split at hfind
      · cases hfind
      · rename_i hover
        exact ⟨fun hc => absurd hc hinvalid, fun hlt => absurd hlt hover⟩
    | passedOn hfind hroomy =>
      have hroomy : replays.length ≠ MAX_SIGNAL_REPLAY_ENTRIES := hroomy
      have hfind : replays.find? (fun replay => replay.callId = call.callId ∧ replay.requestId = send.requestId) = none := hfind
      rw [hfound] at hfind
      split at hfind
      · cases hfind
      · omega

theorem Inv.finish {replays : List SignalReplay} {forwarded period : List BackendCall}
    {created : Nanoseconds} {worker : VoiceWorker β H P} {answered resolved : Bool} (h : Inv B hashes backend ttl w call s)
    (hexchanged : Exchanged hashes call s send response replays (forwardedSignals forwarded))
    (hreached : ∃ arrivals, worker = Runs.final (VoiceWorker.step B hashes) (withTtl backend ttl) arrivals)
    (hstate : worker.state = .active { call with signalReplays := replays, created })
    (hcalls : worker.calls = w.calls ++ (period ++ forwarded)) (hreceived : forwardedSignals period = s.handled.take (room call))
    (hresolved : resolved = true ↔ answered = true ∧ s.sent.length < room call) :
    Inv B hashes backend ttl w call (({ s with worker } : SignalSender β H P).finish send answered resolved) := by
  have hhandled : (({ s with worker } : SignalSender β H P).finish send answered resolved).handled =
      s.sent.map (fun sent => sent.signal) ++ [send.signal] := by
    unfold handled SignalSender.finish
    rw [map_append]
    exact append_nil _
  refine ⟨hreached, ⟨replays, created, hstate, ?_⟩, ⟨period ++ forwarded, hcalls, ?_⟩, fun i x hx => ?_⟩
  · refine ⟨?_, hexchanged.below, (fun _ hc => by cases hc), (fun _ hc => by cases hc), (fun _ hc => by cases hc),
      (fun _ hc => by cases hc)⟩
    rw [hhandled, List.length_append, length_map]
    exact hexchanged.length
  · rw [hhandled, forwardedSignals_append, hreceived]
    exact hexchanged.received
  · have hx : (s.sent ++ [{ signal := send.signal, answered, resolved }])[i]? = some x := hx
    by_cases hlt : i < s.sent.length
    · rw [getElem?_append_left hlt] at hx
      exact h.sent i x hx
    · have hlast : i = s.sent.length := by
        have hbound := (List.getElem?_eq_some_iff.1 hx).1
        rw [List.length_append, List.length_singleton] at hbound
        omega
      subst hlast
      rw [getElem?_append_right (Nat.le_refl _), Nat.sub_self] at hx
      cases hx
      exact hresolved

theorem worker_delivered {delivery : Delivery} :
    (s.delivered send response delivery).worker = s.worker := by
  cases delivery with
  | arrives => rfl
  | lost beforeFirstByte =>
    unfold delivered
    dsimp only
    split <;> rfl

/-- **A signal that is handled**, whatever becomes of the response. -/
theorem Inv.exchange {now : Nanoseconds} {random : Option (FixedBytes DH_PUBLIC_BYTES)} {delivery : Delivery}
    (h : Inv B hashes backend ttl w call s) (hbound : call.signalReplays.length ≤ MAX_SIGNAL_REPLAY_ENTRIES)
    (haccepts : ∀ backend handle signal, (B.forwardSignal backend handle signal).2 = .ok ())
    (hstep : step B hashes call.callId s (.exchange now random delivery) = some s')
    (hafter : s'.worker.activeId? = some call.callId) : Inv B hashes backend ttl w call s' := by
  obtain ⟨replays, created, hstate, hfits⟩ := h.active
  obtain ⟨period, hperiod, hreceived⟩ := h.received
  obtain ⟨send, a, hsend, ha, rfl⟩ : ∃ send, ∃ a : Arrival, s.sending = some send ∧
      a.request = .signal call.callId send.requestId send.signal ∧
      s' = ({ s with worker := (VoiceWorker.step B hashes s.worker a).1 } : SignalSender β H P).delivered send
        (VoiceWorker.step B hashes s.worker a).2 delivery := by
    unfold step at hstep
    dsimp only at hstep
    split at hstep
    · cases hstep
    · rename_i send hsend
      cases hstep
      exact ⟨send, ⟨now, random, .signal call.callId send.requestId send.signal⟩, hsend, rfl, rfl⟩
  rw [worker_delivered] at hafter
  have hreach := h.reached
  obtain ⟨arrivals, harrivals⟩ := h.reached
  obtain ⟨htraced, hledger⟩ : Traced hashes arrivals s.worker ∧ s.worker.ledger.Inv :=
    harrivals ▸ VoiceWorker.reached backend ttl arrivals
  obtain ⟨created', replays', added, hstate', hcalls, hsignal⟩ :=
    step_signal hstate hafter hledger htraced.recent haccepts (hfits.short send hsend) ha
  have hexchanged := hfits.exchanged hsend hbound hsignal
  have hcalls' : (VoiceWorker.step B hashes s.worker a).1.calls = w.calls ++ (period ++ added) := by
    rw [hcalls, hperiod, append_assoc]
  have hfinish : ∀ {answered resolved : Bool}, (resolved = true ↔ answered = true ∧ s.sent.length < room call) →
      Inv B hashes backend ttl w call
        (({ s with worker := (VoiceWorker.step B hashes s.worker a).1 } : SignalSender β H P).finish send answered resolved) :=
    fun hresolved => h.finish hexchanged (reached_step hreach) hstate' hcalls' hreceived hresolved
  cases delivery with
  | arrives =>
    refine hfinish ⟨fun hresolved => ⟨rfl, ?_⟩, fun hlt => ?_⟩
    · exact hexchanged.resolved.1 (of_decide_eq_true hresolved)
    · exact decide_eq_true (hexchanged.resolved.2 hlt.2)
  | lost beforeFirstByte =>
    unfold delivered
    dsimp only
    split
    · obtain ⟨s₁, hs₁⟩ : ∃ s₁ : SignalSender β H P, s₁ = { s with
          worker := (VoiceWorker.step B hashes s.worker a).1, sending := some { send with retried := true } } := ⟨_, rfl⟩
      have hhandled : s₁.handled = s.sent.map (fun sent => sent.signal) ++ [send.signal] := by
        rw [hs₁]
        rfl
      have hcount : s₁.handled.length = s.sent.length + 1 := by
        rw [hhandled, List.length_append, length_map]
        rfl
      have hsending : ∀ x, s₁.sending = some x → x = { send with retried := true } := by
        intro x hx
        rw [hs₁] at hx
        exact (Option.some.inj hx).symm
      have hkept : s₁.worker = (VoiceWorker.step B hashes s.worker a).1 ∧ s₁.nextRequestId = s.nextRequestId ∧ s₁.sent = s.sent := by
        rw [hs₁]
        exact ⟨rfl, rfl, rfl⟩
      show Inv B hashes backend ttl w call { s with
        worker := (VoiceWorker.step B hashes s.worker a).1, sending := some { send with retried := true } }
      rw [← hs₁]
      refine ⟨?_, ⟨replays', created', ?_, ?_⟩, ⟨period ++ added, ?_, ?_⟩, ?_⟩
      · rw [hkept.1]
        exact reached_step hreach
      · rw [hkept.1]
        exact hstate'
      · refine ⟨by rw [hcount]; exact hexchanged.length, by rw [hkept.2.1]; exact hexchanged.below, fun x hx => ?_, fun x hx => ?_,
          fun x hx hc => ?_, fun x hx _ => ?_⟩
        · rw [hsending x hx]
          exact hfits.short send hsend
        · rw [hsending x hx, hkept.2.1]
          exact hfits.drawn send hsend
        · rw [hsending x hx] at hc
          cases hc
        · rw [hsending x hx, hcount]
          exact hexchanged.found
      · rw [hkept.1]
        exact hcalls'
      · rw [hhandled, forwardedSignals_append, hreceived]
        exact hexchanged.received
      · rw [hkept.2.2]
        exact h.sent
    · exact hfinish ⟨fun hc => (by cases hc), fun hc => (by cases hc.1)⟩

/-- **A step keeps the invariant** for as long as there are ids. -/
theorem Inv.step {action : SenderAction} (h : Inv B hashes backend ttl w call s)
    (hbound : call.signalReplays.length ≤ MAX_SIGNAL_REPLAY_ENTRIES)
    (haccepts : ∀ backend handle signal, (B.forwardSignal backend handle signal).2 = .ok ())
    (hstays : StaysActive B hashes call.callId s action) (hstep : SignalSender.step B hashes call.callId s action = some s')
    (hids : s'.nextRequestId.toNat < 0xffffffffffffffff) : Inv B hashes backend ttl w call s' := by
  have hafter := hstays.2 s' hstep
  cases action with
  | request a =>
    cases hstep
    exact h.request hstays.1 hafter
  | takeId =>
    obtain ⟨requestId, htaken, rfl⟩ := map_eq_some_iff.1 hstep
    obtain ⟨replays, created, hstate, hfits⟩ := h.active
    refine ⟨h.reached, ⟨replays, created, hstate, hfits.moved rfl rfl ?_⟩, h.received, h.sent⟩
    exact Nat.le_of_lt (by rw [VoiceWorkerSocketClient.takeId_toNat htaken]; exact Nat.lt_succ_self _)
  | exchange now random delivery => exact h.exchange hbound haccepts hstep hafter
  | send signal =>
    have hshort : signal.length ≤ MAX_SIGNAL_BYTES := hstays.1
    unfold SignalSender.step at hstep
    dsimp only at hstep
    split at hstep
    · cases hstep
    · rename_i hnone
      cases hstep
      unfold VoiceWorkerSocketClient.takeId at hnone
      rw [if_neg (Nat.not_le.2 hids)] at hnone
      cases hnone
    · rename_i requestId hidle htaken
      rw [if_neg (Nat.not_lt.2 hshort)] at hstep
      cases hstep
      have hnext := VoiceWorkerSocketClient.takeId_toNat htaken
      obtain ⟨replays, created, hstate, hfits⟩ := h.active
      have hhandled : ({ s with nextRequestId := requestId, sending := some { requestId, signal, retried := false } } :
          SignalSender β H P).handled = s.handled := by
        unfold handled
        rw [hidle]
        rfl
      refine ⟨h.reached, ⟨replays, created, hstate, ?_⟩, ?_, h.sent⟩
      · refine ⟨by rw [hhandled]; exact hfits.length, fun replay hreplay => ?_, fun x hx => ?_, fun x hx => ?_, fun x hx _ => ?_,
          fun x hx hc => ?_⟩
        · have hle := hfits.below replay hreplay
          show replay.requestId.toNat ≤ requestId.toNat
          omega
        · cases hx
          exact hshort
        · cases hx
          exact Nat.le_refl _
        · cases hx
          refine find?_eq_none.2 (fun replay hreplay hc => ?_)
          have hle := hfits.below replay hreplay
          have hsame := congrArg UInt64.toNat (of_decide_eq_true hc).2
          dsimp only at hsame
          omega
        · cases hx
          cases hc
      · rw [hhandled]
        exact h.received

theorem nextRequestId_step {action : SenderAction} (hstep : SignalSender.step B hashes call.callId s action = some s') :
    s.nextRequestId.toNat ≤ s'.nextRequestId.toNat := by
  cases action with
  | request a =>
    cases hstep
    exact Nat.le_refl _
  | takeId =>
    obtain ⟨requestId, htaken, rfl⟩ := map_eq_some_iff.1 hstep
    exact Nat.le_of_lt (by rw [VoiceWorkerSocketClient.takeId_toNat htaken]; exact Nat.lt_succ_self _)
  | send signal =>
    unfold SignalSender.step at hstep
    dsimp only at hstep
    split at hstep
    · cases hstep
    · cases hstep
      exact Nat.le_refl _
    · rename_i requestId _ htaken
      have hnext := VoiceWorkerSocketClient.takeId_toNat htaken
      split at hstep
      · cases hstep
        exact Nat.le_of_lt (by rw [hnext]; exact Nat.lt_succ_self _)
      · cases hstep
        exact Nat.le_of_lt (by rw [hnext]; exact Nat.lt_succ_self _)
  | exchange now random delivery =>
    unfold SignalSender.step at hstep
    dsimp only at hstep
    split at hstep
    · cases hstep
    · cases hstep
      cases delivery with
      | arrives => exact Nat.le_refl _
      | lost beforeFirstByte =>
        unfold delivered
        dsimp only
        split <;> exact Nat.le_refl _

def Bounded (state : CallState) : Prop :=
  ∀ call, state = .active call → call.signalReplays.length ≤ MAX_SIGNAL_REPLAY_ENTRIES

theorem bounded_of_inactive {state : CallState} (h : state.active? = none) : Bounded state := by
  intro call hstate
  rw [hstate] at h
  cases h

theorem bounded_moves {v v' : CallView} (h : Bounded v.state) (hmoves : ViewMoves v v') : Bounded v'.state := by
  induction hmoves with
  | refl => exact h
  | tail _ hstep ih =>
    cases hstep with
    | refreshed call created hstate =>
      intro call' hcall
      cases hcall
      exact ih call hstate
    | ended => exact bounded_of_inactive rfl
    | forgot => exact ih

theorem bounded_effect {calls : List BackendCall} {m m' : Memory} (h : Bounded m.state)
    (heffect : Effect hashes a response calls m m') : Bounded m'.state := by
  cases heffect with
  | kept => exact h
  | acknowledged => exact h
  | attached => exact h
  | forwarded _ call requestId signal handle _ _ hstate _ hroom _ =>
    intro call' hcall
    cases hcall
    have hbound := h call hstate
    rw [List.length_append, List.length_singleton]
    omega
  | started =>
    intro call hcall
    cases hcall
    exact Nat.zero_le _
  | _ => exact bounded_of_inactive rfl

theorem replays_bounded (backend : β) (ttl : Nanoseconds) (arrivals : List Arrival) :
    Bounded (Runs.final (VoiceWorker.step B hashes) (withTtl backend ttl) arrivals).state := by
  refine Runs.final_invariant (I := fun w : VoiceWorker β H P => Bounded w.state) (fun w a h => ?_) arrivals _
    (bounded_of_inactive rfl)
  have hsettled : Bounded (VoiceWorker.settle B w a.now a.request).state := bounded_moves h (view_settle B)
  obtain ⟨_, _, -, -, -, ⟨hsame, -⟩ | heffect⟩ := @step_effect β H P B hashes w a
  · rw [hsame]
    exact hsettled
  · exact bounded_effect hsettled heffect

end SignalSender

open SignalSender in
/-- **A call passes on sixteen signals.** -/
theorem signals_sent {β H P : Type} {B : MediaBackend β H P} {hashes : Hashes} (backend : β) (ttl : Nanoseconds)
    (arrivals : List Arrival) {w : VoiceWorker β H P} {call : ActiveCall} {next : UInt64} {s : SignalSender β H P}
    (hw : w = Runs.final (VoiceWorker.step B hashes) (VoiceWorker.withTtl backend ttl) arrivals)
    (hactive : w.state = .active call) (hids : ∀ replay ∈ call.signalReplays, replay.requestId.toNat ≤ next.toNat)
    (haccepts : ∀ backend handle signal, (B.forwardSignal backend handle signal).2 = .ok ())
    (hs : Runs.Reachable (SignalSender.step B hashes call.callId) (StaysActive B hashes call.callId) (.start w next) s)
    (hlast : s.nextRequestId.toNat < 0xffffffffffffffff) :
    (∃ period, s.worker.calls = w.calls ++ period ∧ forwardedSignals period = s.handled.take (room call)) ∧
    (∀ i x, s.sent[i]? = some x → (x.resolved = true ↔ x.answered = true ∧ i < room call)) ∧
    s.worker.activeId? = some call.callId := by
  have hbound := replays_bounded backend ttl arrivals call (hw ▸ hactive)
  have hstart : Inv B hashes backend ttl w call (.start w next) := by
    refine ⟨⟨arrivals, hw⟩, ⟨call.signalReplays, call.created, hactive, ?_⟩, ⟨[], (append_nil _).symm, take_nil.symm⟩,
      (fun _ _ hc => by cases hc)⟩
    have hnone : (SignalSender.start w next).handled.length = 0 := rfl
    exact ⟨(by rw [hnone, Nat.min_zero]; rfl), hids, (fun _ hc => by cases hc), (fun _ hc => by cases hc),
      (fun _ hc => by cases hc), (fun _ hc => by cases hc)⟩
  have hinv : s.nextRequestId.toNat < 0xffffffffffffffff → Inv B hashes backend ttl w call s :=
    hs.invariant (I := fun s => s.nextRequestId.toNat < 0xffffffffffffffff → Inv B hashes backend ttl w call s)
      (fun _ => hstart) (fun s action s' _ h hstays hstep hlast =>
        (h (Nat.lt_of_le_of_lt (nextRequestId_step hstep) hlast)).step hbound haccepts hstays hstep hlast)
  obtain ⟨-, ⟨replays, created, hstate, -⟩, hreceived, hsent⟩ := hinv hlast
  refine ⟨hreceived, hsent, ?_⟩
  unfold VoiceWorker.activeId?
  rw [hstate]
  rfl

/-! ## Runs of one client -/

def quietWorker : VoiceWorker Unit Unit Unit := quietRun [prepareOne 0, completeOne 0 middleValue]

def senderRun (actions : List SenderAction) : Option (SignalSender Unit Unit Unit) :=
  Runs.run (SignalSender.step quietBackend zeroHashes 1) (.start quietWorker 0) actions

def staysTested (s : SignalSender Unit Unit Unit) (action : SenderAction) : Bool :=
  (match action with
    | .request _ | .takeId => false
    | .send signal => decide (signal.length ≤ MAX_SIGNAL_BYTES)
    | .exchange .. => true) &&
  (SignalSender.step quietBackend zeroHashes 1 s action).all (fun s' => s'.worker.activeId? = some 1)

theorem stays_of_tested (s : SignalSender Unit Unit Unit) (action : SenderAction) (h : staysTested s action = true) :
    SignalSender.StaysActive quietBackend zeroHashes 1 s action := by
  unfold staysTested at h
  obtain ⟨hkind, hactive⟩ := Bool.and_eq_true_iff.1 h
  refine ⟨?_, fun s' hs' => ?_⟩
  · cases action with
    | request a => cases hkind
    | takeId => cases hkind
    | send signal => exact of_decide_eq_true hkind
    | exchange => trivial
  · rw [hs'] at hactive
    exact of_decide_eq_true hactive

def testedRun (actions : List SenderAction) : Option (SignalSender Unit Unit Unit) :=
  Runs.run (fun s action => if staysTested s action then SignalSender.step quietBackend zeroHashes 1 s action else none)
    (.start quietWorker 0) actions

def lostSend : List SenderAction := [.send [4], .exchange 0 none (.lost true), .exchange 0 none .arrives]

theorem lost_response_asked_again : ∃ s period, testedRun lostSend = some s ∧
    s.worker.calls = quietWorker.calls ++ period ∧ forwardedSignals period = [[4]] ∧ s.worker.activeId? = some 1 := by
  obtain ⟨s, hs⟩ := isSome_iff_exists.1 (by decide +kernel : (testedRun lostSend).isSome = true)
  have hfacts : (testedRun lostSend).map (fun s => (s.handled, s.nextRequestId)) = some ([[4]], 1) := by decide +kernel
  rw [hs, map_some, some_inj] at hfacts
  obtain ⟨hhandled, hnext⟩ := Prod.mk.inj hfacts
  have hcall : quietWorker.state.active?.map (fun call => (call.callId, call.signalReplays)) = some (1, []) := by
    decide +kernel
  obtain ⟨call, hcall, hsame⟩ := map_eq_some_iff.1 hcall
  obtain ⟨hid, hreplays⟩ := Prod.mk.inj hsame
  have hstate : quietWorker.state = .active call := by
    generalize quietWorker.state = state at hcall
    cases state with
    | active call' => exact congrArg CallState.active (Option.some.inj hcall)
    | _ => cases hcall
  have hreach : Runs.Reachable (SignalSender.step quietBackend zeroHashes call.callId)
      (SignalSender.StaysActive quietBackend zeroHashes call.callId) (.start quietWorker 0) s := by
    rw [hid]
    exact Runs.reachable_of_tested_run stays_of_tested .init hs
  have hworker : quietWorker = Runs.final (VoiceWorker.step quietBackend zeroHashes)
      (VoiceWorker.withTtl () CALL_TTL) [prepareOne 0, completeOne 0 middleValue] := by
    unfold quietWorker quietRun VoiceWorker.new
    rfl
  have hlast : s.nextRequestId.toNat < 0xffffffffffffffff := by
    rw [hnext]
    decide
  obtain ⟨⟨period, hperiod, hreceived⟩, -, hactive⟩ := signals_sent () CALL_TTL _ hworker hstate
    (by rw [hreplays]; exact fun _ hc => by cases hc) (fun _ _ _ => rfl) hreach hlast
  refine ⟨s, period, hs, hperiod, ?_, hid ▸ hactive⟩
  rw [hreceived, hhandled]
  unfold SignalSender.room
  rw [hreplays]
  rfl

/-- **The seventeenth signal is refused** while its call is active; and a signal whose response is lost twice is rejected, though
the backend has it. -/
theorem seventeenth_signal_refused :
    (senderRun (List.replicate 17 [.send [4], .exchange 0 none .arrives]).flatten).map
        (fun s => (s.worker.activeId?, s.sent.map (fun sent => sent.resolved))) =
      some (some 1, List.replicate 16 true ++ [false]) ∧
    (senderRun [.send [4], .exchange 0 none (.lost true), .exchange 0 none (.lost true)]).map
        (fun s => (s.worker.activeId?, s.sent, forwardedSignals s.worker.calls)) =
      some (some 1, [{ signal := [4], answered := false, resolved := false }], [[4]]) := by
  decide +kernel

end Voice
end Crossgram
