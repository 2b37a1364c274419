import Crossgram.VoiceCrypto
/-!
# VoiceWorker — the coordinator of one call (packages/voice-worker/src/worker.rs)

`handle` answers one request at one instant, with what the random source has.  The media backend is any state machine.
What it hands out is kept with its place among the calls to the backend (`Given`), and `calls` records these calls; no code
reads either.
-/
namespace Crossgram
namespace Voice

open VoiceIpc (FixedBytes Response WorkerEvent ErrorCode DH_PUBLIC_BYTES GA_HASH_BYTES PCM_CAPABILITY_BYTES
  PCM_FRAME_BYTES MAX_SIGNAL_BYTES)

def AUTH_KEY_BYTES : Nat := 256
def MAX_OUTBOUND_EVENTS : Nat := 16
def MAX_SIGNAL_REPLAY_ENTRIES : Nat := 16

abbrev Nanoseconds := Nat

def CALL_TTL : Nanoseconds := 30000000000

structure MediaStartConfig where
  callId : UInt64
  server : VoiceIpc.MediaStartConfig
  authKey : FixedBytes AUTH_KEY_BYTES

inductive MediaEvent
  | outboundSignal (signal : List UInt8)
  | nativeError
deriving DecidableEq

inductive MediaError
  | mediaError

structure MediaBackend (β H P : Type) where
  start : β → MediaStartConfig → β × Except MediaError H
  pollEvent : β → β × Except MediaError (Option MediaEvent)
  forwardSignal : β → H → List UInt8 → (β × H) × Except MediaError Unit
  attachPcm : β → H → (β × H) × Except MediaError P
  sendPcm : β → P → FixedBytes PCM_FRAME_BYTES → (β × P) × Except MediaError Unit
  receivePcm : β → P → (β × P) × Except MediaError (Option (FixedBytes PCM_FRAME_BYTES))
  closePcm : β → P → β
  stop : β → H → β

/-- A value of the backend and the place of the call that handed it out. -/
structure Given (α : Type) where
  value : α
  place : Nat

/-- A call to the backend; a handle or endpoint is named by its place, `given` is that of the one handed out, and `waiting` is
how many events wait in the worker. -/
inductive BackendCall
  | start (config : MediaStartConfig) (given : Option Nat)
  | pollEvent (waiting : Nat) (event : Except MediaError (Option MediaEvent))
  | forwardSignal (handle : Nat) (signal : List UInt8)
  | attachPcm (handle : Nat) (given : Option Nat)
  | sendPcm (pcm : Nat) (frame : FixedBytes PCM_FRAME_BYTES)
  | receivePcm (pcm : Nat)
  | closePcm (pcm : Nat)
  | stop (handle : Nat)

structure PendingEvent where
  callId : UInt64
  id : UInt64
  event : MediaEvent
deriving DecidableEq

structure MediaEndpoint (P : Type) where
  requestId : UInt64
  capability : FixedBytes PCM_CAPABILITY_BYTES
  pcm : Given P

structure SignalReplay where
  callId : UInt64
  requestId : UInt64
  signalDigest : FixedBytes 32
  response : Response
deriving DecidableEq

structure ActiveCall where
  callId : UInt64
  endpointKey : FixedBytes 32
  completedRequest : VoiceIpc.Request
  completedResponse : Response
  signalReplays : List SignalReplay
  created : Nanoseconds
deriving DecidableEq

inductive CallState
  | idle
  | callerPrepared (callId : UInt64) (secret : DhPrivate) (ga : FixedBytes DH_PUBLIC_BYTES)
      (gaHash : FixedBytes GA_HASH_BYTES) (created : Nanoseconds)
  | recipientPrepared (callId : UInt64) (secret : DhPrivate) (expectedGaHash : FixedBytes GA_HASH_BYTES)
      (gb : FixedBytes DH_PUBLIC_BYTES) (created : Nanoseconds)
  | active (call : ActiveCall)
deriving DecidableEq

structure Replay where
  request : VoiceIpc.Request
  response : Response
  expires : Nanoseconds

structure VoiceWorker (β H P : Type) where
  backend : β
  state : CallState
  media : Option (Given H)
  endpoint : Option (MediaEndpoint P)
  recent : Option Replay
  events : List PendingEvent
  nextEventId : UInt64
  lastAckedEvent : Option (UInt64 × UInt64)
  ttl : Nanoseconds
  calls : List BackendCall

def callIdOf : VoiceIpc.Request → UInt64
  | .prepareCaller callId | .prepareRecipient callId _ | .completeCaller callId _ _ | .completeRecipient callId _ _ _
  | .signal callId _ _ | .hangup callId | .attachMedia callId _ | .sendPcm callId _ _ | .receivePcm callId _
  | .closeMedia callId _ | .pollEvent callId | .ackEvent callId _ => callId

namespace CallState

def callId? : CallState → Option UInt64
  | .idle                            => none
  | .callerPrepared callId _ _ _ _    => some callId
  | .recipientPrepared callId _ _ _ _ => some callId
  | .active call                     => some call.callId

def created? : CallState → Option Nanoseconds
  | .idle                             => none
  | .callerPrepared _ _ _ _ created    => some created
  | .recipientPrepared _ _ _ _ created => some created
  | .active call                      => some call.created

def active? : CallState → Option ActiveCall
  | .active call => some call
  | _            => none

end CallState

def invalidState : Response := .error .invalidState
def cryptoError : Response := .error .crypto
def mediaUnavailable : Response := .error .mediaUnavailable

/-- `b"crossgram-voice-worker-pcm-v2"` -/
def pcmDomain : List UInt8 := VoiceIpc.asBytes "crossgram-voice-worker-pcm-v2"

def endpointCapability (hashes : Hashes) (sharedKey : FixedBytes 32) (callId requestId : UInt64) :
    FixedBytes PCM_CAPABILITY_BYTES :=
  hashes.sha256 (pcmDomain ++ sharedKey.val ++ VoiceIpc.PayloadWriter.u64 callId ++ VoiceIpc.PayloadWriter.u64 requestId)

/-- `saturating_add(1)` -/
def nextId (id : UInt64) : UInt64 := if id.toNat = 18446744073709551615 then id else id + 1

namespace VoiceWorker

variable {β H P : Type}

def withTtl (backend : β) (ttl : Nanoseconds) : VoiceWorker β H P :=
  { backend, state := .idle, media := none, endpoint := none, recent := none, events := [], nextEventId := 1
    lastAckedEvent := none, ttl, calls := [] }

def new (backend : β) : VoiceWorker β H P := withTtl backend CALL_TTL

def isActive (w : VoiceWorker β H P) : Bool := w.state.active?.isSome

def activeId? (w : VoiceWorker β H P) : Option UInt64 := w.state.active?.map (fun call => call.callId)

/-! ## Time -/

def refreshActive (w : VoiceWorker β H P) (now : Nanoseconds) (requestCallId : UInt64) : VoiceWorker β H P :=
  match w.state with
  | .active call =>
    if call.callId = requestCallId ∧ now - call.created < w.ttl then { w with state := .active { call with created := now } }
    else w
  | _ => w

def remember (w : VoiceWorker β H P) (now : Nanoseconds) (request : VoiceIpc.Request) (response : Response) :
    VoiceWorker β H P × Response :=
  ({ w with recent := some { request, response, expires := now + w.ttl } }, response)

def busyOrInvalid (w : VoiceWorker β H P) (callId : UInt64) : Response :=
  match w.state.callId? with
  | none          => invalidState
  | some activeId => if activeId = callId then invalidState else .error .busy

variable (B : MediaBackend β H P) (hashes : Hashes)

/-! ## The end of a call -/

def closeEndpoint (w : VoiceWorker β H P) : VoiceWorker β H P :=
  match w.endpoint with
  | none          => w
  | some endpoint => { w with
      endpoint := none
      backend := B.closePcm w.backend endpoint.pcm.value
      calls := w.calls ++ [.closePcm endpoint.pcm.place] }

def stopMedia (w : VoiceWorker β H P) : VoiceWorker β H P :=
  match w.media with
  | none        => w
  | some handle => { w with
      media := none
      backend := B.stop w.backend handle.value
      calls := w.calls ++ [.stop handle.place] }

def teardownMedia (w : VoiceWorker β H P) : VoiceWorker β H P :=
  stopMedia B (closeEndpoint B { w with state := .idle })

def teardown (w : VoiceWorker β H P) : VoiceWorker β H P :=
  teardownMedia B { w with events := [], lastAckedEvent := none }

def finishWithoutReplay (w : VoiceWorker β H P) (response : Response) : VoiceWorker β H P × Response :=
  (teardown B w, response)

def IsOver (w : VoiceWorker β H P) (now : Nanoseconds) : Prop := ∃ created ∈ w.state.created?, w.ttl ≤ now - created

instance (w : VoiceWorker β H P) (now : Nanoseconds) : Decidable (w.IsOver now) :=
  decidable_of_iff (w.state.created?.any (fun created => w.ttl ≤ now - created)) (by
    unfold IsOver
    cases w.state.created? <;> simp)

def forgetRecent (w : VoiceWorker β H P) (now : Nanoseconds) : VoiceWorker β H P :=
  match w.recent with
  | none        => w
  | some replay => if replay.expires ≤ now then { w with recent := none } else w

def expire (w : VoiceWorker β H P) (now : Nanoseconds) : VoiceWorker β H P :=
  (if w.IsOver now then teardown B w else w).forgetRecent now

/-! ## Events -/

def queueEvent (w : VoiceWorker β H P) (callId : UInt64) : MediaEvent → VoiceWorker β H P
  -- a native error takes the place of the signals that wait
  | .nativeError => teardownMedia B { w with
      events := [{ callId, id := w.nextEventId, event := .nativeError }]
      lastAckedEvent := none
      nextEventId := nextId w.nextEventId }
  | .outboundSignal signal =>
    if w.events.length = MAX_OUTBOUND_EVENTS then w
    else { w with
      events := w.events ++ [{ callId, id := w.nextEventId, event := .outboundSignal signal }]
      nextEventId := nextId w.nextEventId }

/-- `self.backend.poll_event()` -/
def polled (w : VoiceWorker β H P) : VoiceWorker β H P × Except MediaError (Option MediaEvent) :=
  let (backend, event) := B.pollEvent w.backend
  ({ w with backend, calls := w.calls ++ [.pollEvent w.events.length event] }, event)

def eventOf : Except MediaError (Option MediaEvent) → Option MediaEvent
  | .ok event => event
  | .error _  => some .nativeError

def collectNativeEvents (w : VoiceWorker β H P) : VoiceWorker β H P :=
  match w.media with
  | none   => w
  | some _ =>
    let (w, event) := polled B w
    match eventOf event, w.activeId? with
    | some event, some callId => queueEvent B w callId event
    | _,          _           => w

def pollEvent (w : VoiceWorker β H P) (callId : UInt64) : VoiceWorker β H P × Response :=
  let w := collectNativeEvents B w
  match w.events.find? (fun event => event.callId = callId) with
  | none       => (w, .eventPending)
  | some event =>
    (w, .event event.id (match event.event with
      | .outboundSignal signal => .outboundSignal signal
      | .nativeError           => .nativeError))

def ackEvent (w : VoiceWorker β H P) (callId eventId : UInt64) : VoiceWorker β H P × Response :=
  if w.lastAckedEvent = some (callId, eventId) then (w, .eventAcknowledged eventId)
  else match w.events with
    | []              => (w, invalidState)
    | event :: events =>
      if event.callId ≠ callId ∨ event.id ≠ eventId then (w, invalidState)
      else ({ w with events, lastAckedEvent := some (callId, eventId) }, .eventAcknowledged eventId)

/-! ## The handshake -/

def prepareCaller (w : VoiceWorker β H P) (now : Nanoseconds) (random : Option (FixedBytes DH_PUBLIC_BYTES))
    (callId : UInt64) : VoiceWorker β H P × Response :=
  let create : VoiceWorker β H P × Response :=
    match DhPrivate.generate random with
    | .error _   => (w, cryptoError)
    | .ok secret =>
      let ga := publicValue secret
      let gaHash := hashes.gaHash ga
      ({ w with state := .callerPrepared callId secret ga gaHash now }, .callerPrepared gaHash)
  match w.state with
  | .callerPrepared activeId _ _ gaHash _ =>
    if activeId = callId then (w, .callerPrepared gaHash) else (w, w.busyOrInvalid callId)
  | .idle                                 => create
  | .recipientPrepared ..                 => (w, w.busyOrInvalid callId)
  | .active _                             => (w, w.busyOrInvalid callId)

def prepareRecipient (w : VoiceWorker β H P) (now : Nanoseconds) (random : Option (FixedBytes DH_PUBLIC_BYTES))
    (callId : UInt64) (gaHash : FixedBytes GA_HASH_BYTES) : VoiceWorker β H P × Response :=
  let create : VoiceWorker β H P × Response :=
    match DhPrivate.generate random with
    | .error _   => (w, cryptoError)
    | .ok secret =>
      let gb := publicValue secret
      ({ w with state := .recipientPrepared callId secret gaHash gb now }, .recipientPrepared gb)
  match w.state with
  | .recipientPrepared activeId _ expectedGaHash gb _ =>
    if activeId = callId ∧ expectedGaHash = gaHash then (w, .recipientPrepared gb) else (w, w.busyOrInvalid callId)
  | .idle                                             => create
  | .callerPrepared ..                                => (w, w.busyOrInvalid callId)
  | .active _                                         => (w, w.busyOrInvalid callId)

def endpointKeyOf (sharedKey : FixedBytes AUTH_KEY_BYTES) : FixedBytes 32 := hashes.sha256 (pcmDomain ++ sharedKey.val)

/-- `start_backend`, and what follows when it succeeds: the call is active. -/
def startBackend (w : VoiceWorker β H P) (now : Nanoseconds) (sharedKey : FixedBytes AUTH_KEY_BYTES) (callId : UInt64)
    (config : VoiceIpc.MediaStartConfig) (isOutgoing : Bool) (request : VoiceIpc.Request) (response : Response) :
    VoiceWorker β H P × Response :=
  if (config.validate matches .error _) ∨ config.isOutgoing ≠ isOutgoing then w.remember now request mediaUnavailable
  else
    let started := { callId, server := config, authKey := sharedKey : MediaStartConfig }
    match B.start w.backend started with
    | (backend, .error _)   =>
      let w := { w with backend, calls := w.calls ++ [BackendCall.start started none] }
      w.remember now request mediaUnavailable
    | (backend, .ok handle) =>
      ({ w with
        backend
        calls := w.calls ++ [.start started (some w.calls.length)]
        media := some { value := handle, place := w.calls.length }
        state := .active {
          callId
          endpointKey := endpointKeyOf hashes sharedKey
          completedRequest := request
          completedResponse := response
          signalReplays := []
          created := now } }, response)

def completedAnswer (call : ActiveCall) (callId : UInt64) (request : VoiceIpc.Request) : Response :=
  if call.callId = callId ∧ call.completedRequest = request then call.completedResponse else invalidState

def completeCaller (w : VoiceWorker β H P) (now : Nanoseconds) (callId : UInt64) (gb : FixedBytes DH_PUBLIC_BYTES)
    (config : VoiceIpc.MediaStartConfig) : VoiceWorker β H P × Response :=
  let request : VoiceIpc.Request := .completeCaller callId gb config
  match w.state with
  | .active call => (w, completedAnswer call callId request)
  | .callerPrepared activeId secret ga _ _ =>
    if activeId ≠ callId then (w, invalidState)
    else
      let w := { w with state := .idle }
      match deriveSharedKey secret gb with
      | .error _      => w.remember now request cryptoError
      | .ok sharedKey =>
        startBackend B hashes w now sharedKey callId config true request
          (.callerCompleted ga (hashes.keyFingerprint sharedKey))
  | .idle                 => (w, invalidState)
  | .recipientPrepared .. => (w, invalidState)

def completeRecipient (w : VoiceWorker β H P) (now : Nanoseconds) (callId : UInt64) (ga : FixedBytes DH_PUBLIC_BYTES)
    (expectedFingerprint : Int64) (config : VoiceIpc.MediaStartConfig) : VoiceWorker β H P × Response :=
  let request : VoiceIpc.Request := .completeRecipient callId ga expectedFingerprint config
  match w.state with
  | .active call => (w, completedAnswer call callId request)
  | .recipientPrepared activeId secret expectedGaHash _ _ =>
    if activeId ≠ callId then (w, invalidState)
    else
      let w := { w with state := .idle }
      match hashes.verifyGaHash ga expectedGaHash, deriveSharedKey secret ga with
      | .error _, _             => w.remember now request cryptoError
      | .ok _,    .error _      => w.remember now request cryptoError
      | .ok _,    .ok sharedKey =>
        let fingerprint := hashes.keyFingerprint sharedKey
        if fingerprint ≠ expectedFingerprint then w.remember now request cryptoError
        else startBackend B hashes w now sharedKey callId config false request (.recipientCompleted fingerprint)
  | .idle              => (w, invalidState)
  | .callerPrepared .. => (w, invalidState)

/-! ## Signals and PCM -/

def forwardSignal (w : VoiceWorker β H P) (callId requestId : UInt64) (signal : List UInt8) :
    VoiceWorker β H P × Response :=
  if signal.length > MAX_SIGNAL_BYTES then (w, .error .invalidRequest)
  else match w.state with
    | .active call =>
      let signalDigest := hashes.sha256 signal
      if call.callId ≠ callId then (w, invalidState)
      else match call.signalReplays.find? (fun replay => replay.callId = callId ∧ replay.requestId = requestId) with
        | some replay => (w, if replay.signalDigest = signalDigest then replay.response else invalidState)
        | none        =>
          -- the bound on the bytes of the replays is the same bound
          if call.signalReplays.length = MAX_SIGNAL_REPLAY_ENTRIES then (w, invalidState)
          else match w.media with
            | none        => (w, mediaUnavailable)
            | some handle =>
              match B.forwardSignal w.backend handle.value signal with
              | ((backend, value), sent) =>
                let w := { w with
                  backend
                  media := some { handle with value }
                  calls := w.calls ++ [.forwardSignal handle.place signal] }
                match sent with
                | .error _ => finishWithoutReplay B w mediaUnavailable
                | .ok _    =>
                  let response : Response := .signalForwarded requestId
                  ({ w with state := .active { call with
                    signalReplays := call.signalReplays ++ [{ callId, requestId, signalDigest, response }] } }, response)
    | _ => (w, invalidState)

def attachMedia (w : VoiceWorker β H P) (callId requestId : UInt64) : VoiceWorker β H P × Response :=
  match w.state with
  | .active call =>
    if call.callId ≠ callId then (w, invalidState)
    else
      let capability := endpointCapability hashes call.endpointKey callId requestId
      match w.endpoint with
      | some endpoint =>
        (w, if endpoint.requestId = requestId then .mediaAttached requestId endpoint.capability else invalidState)
      | none          =>
        match w.media with
        | none        => (w, mediaUnavailable)
        | some handle =>
          match B.attachPcm w.backend handle.value with
          | ((backend, value), .error _) =>
            finishWithoutReplay B { w with
              backend
              media := some { handle with value }
              calls := w.calls ++ [.attachPcm handle.place none] } mediaUnavailable
          | ((backend, value), .ok pcm)  =>
            ({ w with
              backend
              media := some { handle with value }
              calls := w.calls ++ [.attachPcm handle.place (some w.calls.length)]
              endpoint := some { requestId, capability, pcm := { value := pcm, place := w.calls.length } } },
              .mediaAttached requestId capability)
  | _ => (w, invalidState)

def endpointFor (w : VoiceWorker β H P) (callId : UInt64) (capability : FixedBytes PCM_CAPABILITY_BYTES) :
    Option (MediaEndpoint P) :=
  if w.activeId? = some callId then w.endpoint.filter (fun endpoint => endpoint.capability = capability) else none

def sendPcm (w : VoiceWorker β H P) (callId : UInt64) (capability : FixedBytes PCM_CAPABILITY_BYTES)
    (frame : FixedBytes PCM_FRAME_BYTES) : VoiceWorker β H P × Response :=
  match w.endpointFor callId capability with
  | none          => (w, invalidState)
  | some endpoint =>
    match B.sendPcm w.backend endpoint.pcm.value frame with
    | ((backend, value), sent) =>
      let w := { w with
        backend
        endpoint := some { endpoint with pcm := { endpoint.pcm with value } }
        calls := w.calls ++ [.sendPcm endpoint.pcm.place frame] }
      match sent with
      | .ok _    => (w, .pcmSent)
      | .error _ => finishWithoutReplay B w mediaUnavailable

def receivePcm (w : VoiceWorker β H P) (callId : UInt64) (capability : FixedBytes PCM_CAPABILITY_BYTES) :
    VoiceWorker β H P × Response :=
  match w.endpointFor callId capability with
  | none          => (w, invalidState)
  | some endpoint =>
    match B.receivePcm w.backend endpoint.pcm.value with
    | ((backend, value), received) =>
      let w := { w with
        backend
        endpoint := some { endpoint with pcm := { endpoint.pcm with value } }
        calls := w.calls ++ [.receivePcm endpoint.pcm.place] }
      match received with
      | .ok (some frame) => (w, .pcmReceived frame)
      | .ok none         => (w, .pcmPending)
      | .error _         => finishWithoutReplay B w mediaUnavailable

def closeMedia (w : VoiceWorker β H P) (callId : UInt64) (capability : FixedBytes PCM_CAPABILITY_BYTES) :
    VoiceWorker β H P × Response :=
  match w.endpointFor callId capability with
  | none   => (w, invalidState)
  | some _ => (teardown B w, .mediaClosed)

def hangup (w : VoiceWorker β H P) (now : Nanoseconds) (callId : UInt64) : VoiceWorker β H P × Response :=
  match w.state.callId? with
  | none          => (w, invalidState)
  | some activeId =>
    if callId ≠ activeId then (w, invalidState) else (teardown B w).remember now (.hangup callId) .hungUp

/-! ## `handle` -/

def dispatch (w : VoiceWorker β H P) (now : Nanoseconds) (random : Option (FixedBytes DH_PUBLIC_BYTES)) :
    VoiceIpc.Request → VoiceWorker β H P × Response
  | .prepareCaller callId           => prepareCaller hashes w now random callId
  | .prepareRecipient callId gaHash => prepareRecipient w now random callId gaHash
  | .completeCaller callId gb config => completeCaller B hashes w now callId gb config
  | .completeRecipient callId ga expectedFingerprint config =>
    completeRecipient B hashes w now callId ga expectedFingerprint config
  | .signal callId requestId signal => forwardSignal B hashes w callId requestId signal
  | .hangup callId                  => hangup B w now callId
  | .attachMedia callId requestId   => attachMedia B hashes w callId requestId
  | .sendPcm callId capability frame => sendPcm B w callId capability frame
  | .receivePcm callId capability   => receivePcm B w callId capability
  | .closeMedia callId capability   => closeMedia B w callId capability
  | .pollEvent callId               => pollEvent B w callId
  | .ackEvent callId eventId        => ackEvent w callId eventId

/-- `handle` before it looks at what it remembers. -/
def settle (w : VoiceWorker β H P) (now : Nanoseconds) (request : VoiceIpc.Request) : VoiceWorker β H P :=
  collectNativeEvents B (expire B (w.refreshActive now (callIdOf request)) now)

/-- What `recent` answers to a request. -/
def replayOf (w : VoiceWorker β H P) (request : VoiceIpc.Request) : Option Response :=
  match w.recent with
  | none        => none
  | some replay =>
    if replay.request = request then some replay.response
    else if callIdOf replay.request = callIdOf request then some invalidState
    else none

def handle (w : VoiceWorker β H P) (now : Nanoseconds) (random : Option (FixedBytes DH_PUBLIC_BYTES))
    (request : VoiceIpc.Request) : VoiceWorker β H P × Response :=
  let w := settle B w now request
  match w.replayOf request with
  | some response => (w, response)
  | none          => dispatch B hashes w now random request

end VoiceWorker

end Voice
end Crossgram
